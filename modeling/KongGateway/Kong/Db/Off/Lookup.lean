import KongGateway.Kong.Db.Declarative.Index

/-!
# Lookup — the readers find what the writer stored

`select`, `select_by_field` and the `page_for_` functions against the
stored entities. The readers take the workspace from the options, or the
default one for types without workspaces and for unique values across
workspaces.
-/

namespace KongGateway.Kong.Db.Off

open Bytes Declarative

variable {env : Env} {values : Set Text} {lmdb : Lmdb} {stored : List Record}

/-! ## Queries -/

/-- A query returns the stored entity that meets a condition, unless there
is none or it has expired. -/
def Finds (schema : Schema) (now : Int) (row : Row) (stored : List Record)
    (p : Record → Prop) : Prop :=
  ∃ found : Option Record, row = .ok (found.bind fun r => restore schema now r.item)
    ∧ ∀ r, found = some r ↔ r ∈ stored ∧ p r

/-- An entity of a type in a workspace; types without workspaces do not
look at it. -/
def InWorkspace (env : Env) (schema : Schema) (wsId : Text) (r : Record) : Prop :=
  r.schema = schema ∧ (schema.workspaceable → r.wsId env = wsId)

instance (env : Env) (schema : Schema) (wsId : Text) (r : Record) :
    Decidable (InWorkspace env schema wsId r) :=
  inferInstanceAs (Decidable (r.schema = schema ∧ (schema.workspaceable → r.wsId env = wsId)))

theorem workspaceId_id (env : Env) (schema : Schema) {wsId : Text} (h : wsId ≠ []) :
    workspaceId env schema (.id wsId)
      = if schema.workspaceable then wsId else env.defaultWorkspace := by
  simp only [workspaceId, if_neg h]

theorem workspaceOk_workspaceId (henv : WorkspaceOk env.defaultWorkspace) (schema : Schema)
    {wsId : Text} (h : WorkspaceOk wsId) : WorkspaceOk (workspaceId env schema (.id wsId)) := by
  rw [workspaceId_id env schema h.2.2]
  split
  · exact h
  · exact henv

theorem inWorkspace_iff {schema : Schema} {wsId : Text} (hws : wsId ≠ []) {r : Record}
    (hvalid : Valid env values r) : InWorkspace env schema wsId r ↔
      r.schema = schema ∧ r.wsId env = workspaceId env schema (.id wsId) := by
  rw [workspaceId_id env schema hws, InWorkspace]
  refine and_congr_right fun hschema => ?_
  cases hworkspaceable : schema.workspaceable with
  | true => simp
  | false =>
    have hdefault := hvalid.defaultWsId (by rw [hschema, hworkspaceable])
    simp [hdefault]

/-! ## Stored entities -/

theorem get_itemKey (h : Indexed env values lmdb stored) {r : Record} (hr : r ∈ stored) :
    lmdb.get (r.itemKey env) = some (.item r.item) :=
  (h.holds _ _).mpr ⟨r, hr, (h.valid r hr).mem_rows_iff.mpr (.inl ⟨rfl, rfl⟩)⟩

theorem get_indexKey (h : Indexed env values lmdb stored) {r : Record} (hr : r ∈ stored)
    {k : Text} (hk : IndexKey env r k) : lmdb.get k = some (.text (r.itemKey env)) :=
  (h.holds _ _).mpr ⟨r, hr, (h.valid r hr).mem_rows_iff.mpr (.inr ⟨hk, rfl⟩)⟩

theorem exists_of_get_itemKey (h : Indexed env values lmdb stored) {name wsId pk : Text}
    {v : Value} (hget : lmdb.get (itemKey name wsId pk) = some v) :
    ∃ r ∈ stored, itemKey name wsId pk = r.itemKey env := by
  obtain ⟨r, hr, hrow⟩ := (h.holds _ _).mp hget
  rcases (h.valid r hr).mem_rows_iff.mp hrow with ⟨hkey, -⟩ | ⟨hkey, -⟩
  · exact ⟨r, hr, hkey⟩
  · exact absurd rfl (hkey.ne_itemKey _ _ _)

theorem selectByKey_itemKey (h : Indexed env values lmdb stored) {r : Record} (hr : r ∈ stored)
    (schema : Schema) (now : Int) :
    selectByKey lmdb schema now (r.itemKey env) = .ok (restore schema now r.item) := by
  rw [selectByKey, get_itemKey h hr]
  rfl

/-- A query that looks one key up finds an entity when the entities with
that key are the ones asked for. -/
theorem finds_of_key {schema : Schema} {now : Int} {row : Row} {p : Record → Prop}
    (hunique : ∀ r ∈ stored, p r → ∀ r' ∈ stored, p r' → r = r')
    (hfound : ∀ r ∈ stored, p r → row = .ok (restore schema now r.item))
    (hnone : (∀ r ∈ stored, ¬ p r) → row = .ok none) : Finds schema now row stored p := by
  by_cases hex : ∃ r ∈ stored, p r
  · obtain ⟨r, hr, hp⟩ := hex
    refine ⟨some r, hfound r hr hp, fun r' => ⟨?_, ?_⟩⟩
    · rintro ⟨rfl⟩
      exact ⟨hr, hp⟩
    · rintro ⟨hr', hp'⟩
      rw [hunique r hr hp r' hr' hp']
  · have hall : ∀ r ∈ stored, ¬ p r := fun r hr hp => hex ⟨r, hr, hp⟩
    refine ⟨none, hnone hall, fun r => ⟨?_, ?_⟩⟩
    · rintro ⟨⟩
    · rintro ⟨hr, hp⟩
      exact absurd hp (hall r hr)

/-! ## What index keys say -/

theorem indexKey_unique_iff (henv : WorkspaceOk env.defaultWorkspace)
    (hsha : Set.InjOn env.sha256Hex values) {r : Record}
    (hv : Valid env values r) {schema : Schema} (hschema : SchemaOk env schema) {field : Field}
    (hfield : field ∈ schema.fields) (hunique : field.unique) {wsId v : Text}
    (hws : Plain wsId) (hvalue : v ∈ values) :
    IndexKey env r (uniqueFieldKey env schema.name wsId field.name v) ↔
      r.schema = schema ∧ r.fieldWsId env field = wsId ∧ r.fieldText field = some v := by
  constructor
  · intro hkey
    generalize heq : uniqueFieldKey env schema.name wsId field.name v = k at hkey
    cases hkey with
    | cacheKey hsome =>
      obtain ⟨-, hname, -⟩ := uniqueFieldKey_inj hschema.name hv.schema.name
        (hschema.fieldName _ hfield).1 (by decide) hws henv.1 heq
      exact absurd hname (hschema.fieldName _ hfield).2
    | @unique field' v' hfield' hunique' hvalue' =>
      obtain ⟨hname, hfname, hwsId, hdigest⟩ := uniqueFieldKey_inj hschema.name hv.schema.name
        (hschema.fieldName _ hfield).1 (hv.schema.fieldName _ hfield').1 hws
        (hv.fieldWsId_plain henv field') heq
      obtain rfl := hschema.eq_of_name hv.schema hname
      obtain rfl := hschema.field_eq hfield hfield' hfname
      rw [hsha hvalue (hv.fieldText_mem hfield' hunique' hvalue') hdigest]
      exact ⟨rfl, hwsId.symm, hvalue'⟩
    | foreign hfield' hget' =>
      have hhead := congrArg List.head? heq
      rw [head?_uniqueFieldKey, head?_foreignFieldKey] at hhead
      exact absurd hhead (by decide)
  · rintro ⟨rfl, rfl, hvalue'⟩
    exact .unique hfield hunique hvalue'

theorem indexKey_cacheKey_iff (henv : WorkspaceOk env.defaultWorkspace)
    (hsha : Set.InjOn env.sha256Hex values) {r : Record} (hv : Valid env values r)
    {schema : Schema} (hschema : SchemaOk env schema) (hsome : schema.cacheKey.isSome)
    {v : Text} (hvalue : v ∈ values) :
    IndexKey env r (uniqueFieldKey env schema.name env.defaultWorkspace (ofText "cache_key") v) ↔
      r.schema = schema ∧ cacheKey env schema r.item = v := by
  constructor
  · intro hkey
    generalize heq : uniqueFieldKey env schema.name env.defaultWorkspace (ofText "cache_key") v = k
      at hkey
    cases hkey with
    | cacheKey hsome' =>
      obtain ⟨hname, -, -, hdigest⟩ := uniqueFieldKey_inj hschema.name hv.schema.name
        (by decide) (by decide) henv.1 henv.1 heq
      obtain rfl := hschema.eq_of_name hv.schema hname
      exact ⟨rfl, (hsha hvalue (hv.cacheKey hsome') hdigest).symm⟩
    | @unique field' v' hfield' hunique' hvalue' =>
      obtain ⟨-, hfname, -⟩ := uniqueFieldKey_inj hschema.name hv.schema.name (by decide)
        (hv.schema.fieldName _ hfield').1 henv.1 (hv.fieldWsId_plain henv field') heq
      exact absurd hfname.symm (hv.schema.fieldName _ hfield').2
    | foreign hfield' hget' =>
      have hhead := congrArg List.head? heq
      rw [head?_uniqueFieldKey, head?_foreignFieldKey] at hhead
      exact absurd hhead (by decide)
  · rintro ⟨rfl, rfl⟩
    exact .cacheKey hsome

/-! ## Readers -/

section Readers

variable (henv : WorkspaceOk env.defaultWorkspace) (hsha : Set.InjOn env.sha256Hex values)
  (h : Indexed env values lmdb stored)

include henv h in
/-- `select` in a workspace. -/
theorem finds_select {schema : Schema} (hschema : SchemaOk env schema) (now : Int)
    {pk : Text → Option FieldValue} (hpk : PrimaryKeyOk schema pk) {wsId : Text}
    (hws : WorkspaceOk wsId) :
    Finds schema now (select env lmdb now schema pk (.id wsId)) stored fun r =>
      InWorkspace env schema wsId r ∧ pkParts schema r.item.get = pkParts schema pk := by
  have hws' := workspaceOk_workspaceId henv schema hws
  have hselect : select env lmdb now schema pk (.id wsId)
      = selectByKey lmdb schema now
          (itemKey schema.name (workspaceId env schema (.id wsId)) (pkString schema pk)) :=
    if_neg hws'.2.1
  -- the entities asked for are those with the key that is looked up
  have hkey (r : Record) (hr : r ∈ stored) :
      InWorkspace env schema wsId r ∧ pkParts schema r.item.get = pkParts schema pk ↔
        itemKey schema.name (workspaceId env schema (.id wsId)) (pkString schema pk)
          = r.itemKey env := by
    have hv := h.valid r hr
    rw [inWorkspace_iff hws.2.2 hv]
    constructor
    · rintro ⟨⟨rfl, hwsId⟩, hparts⟩
      rw [Record.itemKey, hwsId, pkString_congr hv.primaryKey hpk hparts]
    · intro heq
      obtain ⟨hname, hwsId, hstring⟩ := itemKey_inj hschema.name hv.schema.name hws'.1 hv.wsId.1
        hws'.2.1 hv.wsId.2.1 heq
      obtain rfl := hschema.eq_of_name hv.schema hname
      exact ⟨⟨rfl, hwsId.symm⟩, pkString_inj hv.primaryKey hpk hstring.symm⟩
  refine finds_of_key ?_ ?_ ?_
  · intro r hr hp r' hr' hp'
    exact eq_of_itemKey h.distinct h.valid hr hr'
      (((hkey r hr).mp hp).symm.trans ((hkey r' hr').mp hp'))
  · intro r hr hp
    rw [hselect, (hkey r hr).mp hp]
    exact selectByKey_itemKey h hr schema now
  · intro hnone
    rw [hselect, selectByKey]
    cases hget : lmdb.get (itemKey schema.name (workspaceId env schema (.id wsId))
        (pkString schema pk)) with
    | none => rfl
    | some v =>
      obtain ⟨r, hr, heq⟩ := exists_of_get_itemKey h hget
      exact absurd ((hkey r hr).mpr heq) (hnone r hr)

include henv hsha h in
theorem finds_selectByIndex {schema : Schema} {now : Int} {k : Text} {p : Record → Prop} (hp : ∀ r ∈ stored, p r ↔ IndexKey env r k)
    (hk : ∀ name wsId pk, k ≠ itemKey name wsId pk) :
    Finds schema now (selectByIndex lmdb now schema k) stored p := by
  refine finds_of_key ?_ ?_ ?_
  · intro r hr hpr r' hr' hpr'
    exact eq_of_indexKey henv hsha h.distinct h.valid hr hr' ((hp r hr).mp hpr)
      ((hp r' hr').mp hpr')
  · intro r hr hpr
    simp only [selectByIndex, get_indexKey h hr ((hp r hr).mp hpr)]
    exact selectByKey_itemKey h hr schema now
  · intro hnone
    cases hget : lmdb.get k with
    | none => simp only [selectByIndex, hget]
    | some v =>
      obtain ⟨r, hr, hrow⟩ := (h.holds _ _).mp hget
      rcases (h.valid r hr).mem_rows_iff.mp hrow with ⟨hkey, -⟩ | ⟨hkey, -⟩
      · exact absurd hkey (hk _ _ _)
      · exact absurd ((hp r hr).mpr hkey) (hnone r hr)

theorem uniqueFieldKey_ne_itemKey (env : Env) (name wsId field v name' wsId' pk : Text) :
    uniqueFieldKey env name wsId field v ≠ itemKey name' wsId' pk := by
  intro heq
  have hhead := congrArg List.head? heq
  rw [head?_uniqueFieldKey, head?_itemKey] at hhead
  exact absurd hhead (by decide)

theorem uniqueAcrossWs_eq {schema : Schema} (hschema : SchemaOk env schema) {field : Field}
    (hfield : field ∈ schema.fields) :
    Schema.uniqueAcrossWs schema field.name = field.uniqueAcrossWs := by
  rw [Bool.eq_iff_iff, Schema.uniqueAcrossWs, List.any_eq_true]
  constructor
  · rintro ⟨field', hfield', hcond⟩
    simp only [Bool.and_eq_true, decide_eq_true_eq] at hcond
    rw [← hschema.field_eq hfield' hfield hcond.1]
    exact hcond.2
  · intro hacross
    exact ⟨field, hfield, by simp [hacross]⟩

include henv hsha h in
/-- `select_by_field` of a unique field in a workspace. -/
theorem finds_selectByField {schema : Schema} (hschema : SchemaOk env schema) (now : Int)
    {field : Field} (hfield : field ∈ schema.fields) (hunique : field.unique)
    {value : FieldValue} (hvalue : fieldString value ∈ values) {wsId : Text}
    (hws : WorkspaceOk wsId) :
    Finds schema now (selectByField env lmdb now schema field.name value (.id wsId)) stored
      fun r => r.schema = schema
        ∧ (field.uniqueAcrossWs ∨ InWorkspace env schema wsId r)
        ∧ r.fieldText field = some (fieldString value) := by
  have hname := (hschema.fieldName field hfield).2
  have hselect : selectByField env lmdb now schema field.name value (.id wsId)
      = selectByIndex lmdb now schema (uniqueFieldKey env schema.name
          (if field.uniqueAcrossWs then env.defaultWorkspace
            else workspaceId env schema (.id wsId)) field.name (fieldString value)) := by
    simp [selectByField, uniqueAcrossWs_eq hschema hfield, hname]
  rw [hselect]
  refine finds_selectByIndex henv hsha h (fun r hr => ?_) (uniqueFieldKey_ne_itemKey env _ _ _ _)
  have hv := h.valid r hr
  have hplain : Plain (if field.uniqueAcrossWs then env.defaultWorkspace
      else workspaceId env schema (.id wsId)) := by
    split
    · exact henv.1
    · exact (workspaceOk_workspaceId henv schema hws).1
  rw [indexKey_unique_iff henv hsha hv hschema hfield hunique hplain hvalue]
  refine and_congr_right fun hrschema => and_congr_left fun _ => ?_
  rw [inWorkspace_iff hws.2.2 hv, Record.fieldWsId]
  cases field.uniqueAcrossWs with
  | true => simp
  | false => simp [hrschema]

include henv hsha h in
/-- `select_by_cache_key`. -/
theorem finds_selectByCacheKey {schema : Schema} (hschema : SchemaOk env schema) (now : Int)
    (hsome : schema.cacheKey.isSome) {key : Text} (hkey : key ∈ values) {wsId : Text} :
    Finds schema now
      (selectByField env lmdb now schema (ofText "cache_key") (.text key) (.id wsId)) stored
      fun r => r.schema = schema ∧ cacheKey env schema r.item = key := by
  have hselect : selectByField env lmdb now schema (ofText "cache_key") (.text key) (.id wsId)
      = selectByIndex lmdb now schema (uniqueFieldKey env schema.name env.defaultWorkspace
          (ofText "cache_key") key) := by
    simp [selectByField, fieldString, Declarative.tostring]
  rw [hselect]
  refine finds_selectByIndex henv hsha h (fun r hr => ?_) (uniqueFieldKey_ne_itemKey env _ _ _ _)
  exact (indexKey_cacheKey_iff henv hsha (h.valid r hr) hschema hsome hkey).symm

/-! ## Children -/

/-- An entity of a type that refers to an id by a field. -/
def ChildOf (env : Env) (schema : Schema) (wsId : Text) (field : Field) (id : Text)
    (r : Record) : Prop :=
  InWorkspace env schema wsId r
    ∧ r.item.get field.name = some (.foreign [(ofText "id", id)])

instance (env : Env) (schema : Schema) (wsId : Text) (field : Field) (id : Text) (r : Record) :
    Decidable (ChildOf env schema wsId field id r) :=
  inferInstanceAs (Decidable (InWorkspace env schema wsId r ∧ _))

def children (env : Env) (stored : List Record) (schema : Schema) (wsId : Text) (field : Field)
    (id : Text) : List Record :=
  stored.filter fun r => ChildOf env schema wsId field id r

/-- The index entry for a child. -/
def childEntry (env : Env) (field : Field) (id : Text) (r : Record) : Text × Value :=
  (foreignFieldKey r.schema.name (r.wsId env) field.name id (pkString r.schema r.item.get),
    .text (r.itemKey env))

include henv h in
theorem mem_childEntries_iff {schema : Schema} (hschema : SchemaOk env schema) {field : Field}
    (hfield : field ∈ schema.fields) {id : Text} (hid : Plain id) {wsId : Text}
    (hws : WorkspaceOk wsId) (entry : Text × Value) :
    entry ∈ childEntries env lmdb schema (.id wsId) field.name id ↔
      ∃ r ∈ children env stored schema wsId field id, childEntry env field id r = entry := by
  have hws' := workspaceOk_workspaceId henv schema hws
  obtain ⟨k, v⟩ := entry
  rw [childEntries, entriesWith, List.mem_filter, ← OrderedStore.get_eq_some_iff, h.holds,
    List.isPrefixOf_iff_prefix]
  constructor
  · rintro ⟨⟨r, hr, hrow⟩, hstarts⟩
    have hv := h.valid r hr
    have hfirst : k.head? = some 70 := by
      obtain ⟨rest, rfl⟩ := List.isPrefixOf_iff_prefix.mp
        (isPrefixOf_foreignFieldKeyPrefix (List.isPrefixOf_iff_prefix.mpr hstarts))
      rfl
    rcases hv.mem_rows_iff.mp hrow with ⟨rfl, -⟩ | ⟨hkey, rfl⟩
    · rw [Record.itemKey, head?_itemKey] at hfirst
      exact absurd hfirst (by decide)
    · cases hkey with
      | cacheKey _ =>
        rw [head?_uniqueFieldKey] at hfirst
        exact absurd hfirst (by decide)
      | unique _ _ _ =>
        rw [head?_uniqueFieldKey] at hfirst
        exact absurd hfirst (by decide)
      | @foreign field' id' hfield' hget' =>
        obtain ⟨hname, hfname, rfl, hwsId⟩ := foreignFieldKey_of_isPrefix hschema.name
          hv.schema.name (hschema.fieldName _ hfield).1 (hv.schema.fieldName _ hfield').1 hid
          (hv.foreign_plain hfield' hget') hws'.1 hv.wsId.1 hws'.2.1 hv.wsId.2.1 hstarts
        obtain rfl := hschema.eq_of_name hv.schema hname
        obtain rfl := hschema.field_eq hfield hfield' hfname
        have hchild : ChildOf env r.schema wsId field id r :=
          ⟨(inWorkspace_iff hws.2.2 hv).mpr ⟨rfl, hwsId.symm⟩, hget'⟩
        exact ⟨r, List.mem_filter.mpr ⟨hr, decide_eq_true hchild⟩, rfl⟩
  · rintro ⟨r, hmem, heq⟩
    obtain ⟨hr, hchild⟩ := List.mem_filter.mp hmem
    obtain ⟨hin, hget⟩ := of_decide_eq_true hchild
    have hv := h.valid r hr
    obtain ⟨rfl, hwsId⟩ := (inWorkspace_iff hws.2.2 hv).mp hin
    obtain ⟨rfl, rfl⟩ := Prod.mk.inj heq
    refine ⟨⟨r, hr, hv.mem_rows_iff.mpr (.inr ⟨.foreign hfield hget, rfl⟩)⟩, ?_⟩
    rw [← hwsId]
    exact ⟨_, rfl⟩

include henv h in
theorem pageFor_children {schema : Schema} (hschema : SchemaOk env schema) (now : Int)
    {field : Field} (hfield : field ∈ schema.fields) {id : Text} (hid : Plain id) {wsId : Text}
    (hws : WorkspaceOk wsId) {size : Nat}
    (hsize : (children env stored schema wsId field id).length ≤ size) :
    ∃ rows, pageFor env lmdb schema now field.name id (.id wsId) size none = .ok (rows, none)
      ∧ rows.Perm ((children env stored schema wsId field id).filterMap
          fun r => restore schema now r.item) := by
  have hnodup : ((children env stored schema wsId field id).map (childEntry env field id)).Nodup := by
    refine List.Nodup.map_on ?_ (h.nodup.filter _)
    intro r hr r' hr' heq
    exact eq_of_itemKey h.distinct h.valid (List.mem_of_mem_filter hr)
      (List.mem_of_mem_filter hr') (Value.text.inj (congrArg Prod.snd heq))
  have hperm : (childEntries env lmdb schema (.id wsId) field.name id).Perm
      ((children env stored schema wsId field id).map (childEntry env field id)) := by
    have hentries : (childEntries env lmdb schema (.id wsId) field.name id).Nodup :=
      (List.Nodup.of_map _ lmdb.nodup_keys).filter _
    rw [List.perm_ext_iff_of_nodup hentries hnodup]
    intro entry
    rw [List.mem_map]
    exact mem_childEntries_iff henv h hschema hfield hid hws entry
  have hrow (r : Record) (hr : r ∈ children env stored schema wsId field id) :
      pageRow lmdb schema now true (childEntry env field id r).2
        = .ok (restore schema now r.item) :=
    selectByKey_itemKey h (List.mem_of_mem_filter hr) schema now
  have hlength : (childEntries env lmdb schema (.id wsId) field.name id).length ≤ size := by
    rw [hperm.length_eq, List.length_map]
    exact hsize
  have hok : ∀ entry ∈ childEntries env lmdb schema (.id wsId) field.name id,
      ∃ row, pageRow lmdb schema now true entry.2 = .ok row := by
    intro entry hmem
    obtain ⟨r, hr, rfl⟩ := (mem_childEntries_iff henv h hschema hfield hid hws entry).mp hmem
    exact ⟨_, hrow r hr⟩
  rw [pageFor_none hok, if_neg (Nat.not_lt.mpr hlength), List.take_of_length_le hlength]
  refine ⟨_, rfl, (hperm.filterMap _).trans ?_⟩
  rw [List.filterMap_map]
  refine List.Perm.of_eq (List.filterMap_congr fun r hr => ?_)
  rw [Function.comp_apply, liveRow, hrow r hr]
  rfl

end Readers

/-! ## The index invariant -/

/-- After every run, LMDB holds the rows of the stored entities, no two of
them share a key, and the readers find the stored entities they ask for
unless they have expired. -/
theorem lmdb_indexes_exact (env : Env) (values : Set Text)
    (henv : WorkspaceOk env.defaultWorkspace) (hsha : Set.InjOn env.sha256Hex values)
    {lmdb : Lmdb} {stored : List Record} (h : Stores env values lmdb stored) :
    lmdb.Holds {row | ∃ r ∈ stored, row ∈ r.rows env}
    ∧ (∀ r ∈ stored, ∀ r' ∈ stored, r ≠ r' →
        ∀ row ∈ r.rows env, ∀ row' ∈ r'.rows env, row.1 ≠ row'.1)
    ∧ ∀ schema, SchemaOk env schema → ∀ now wsId, WorkspaceOk wsId →
        (∀ pk, PrimaryKeyOk schema pk →
          Finds schema now (select env lmdb now schema pk (.id wsId)) stored fun r =>
            InWorkspace env schema wsId r ∧ pkParts schema r.item.get = pkParts schema pk)
        ∧ (∀ field ∈ schema.fields, field.unique → ∀ value, fieldString value ∈ values →
          Finds schema now (selectByField env lmdb now schema field.name value (.id wsId)) stored
            fun r => r.schema = schema ∧ (field.uniqueAcrossWs ∨ InWorkspace env schema wsId r)
              ∧ r.fieldText field = some (fieldString value))
        ∧ (schema.cacheKey.isSome → ∀ key ∈ values,
          Finds schema now
            (selectByField env lmdb now schema (ofText "cache_key") (.text key) (.id wsId)) stored
            fun r => r.schema = schema ∧ cacheKey env schema r.item = key)
        ∧ (∀ field ∈ schema.fields, ∀ id, Plain id → ∀ size,
          (children env stored schema wsId field id).length ≤ size →
          ∃ rows, pageFor env lmdb schema now field.name id (.id wsId) size none
              = .ok (rows, none)
            ∧ rows.Perm ((children env stored schema wsId field id).filterMap
                fun r => restore schema now r.item)) := by
  have hindexed := h.indexed henv hsha
  refine ⟨hindexed.holds, ?_, ?_⟩
  · rintro r hr r' hr' hne ⟨k, v⟩ hrow ⟨k', v'⟩ hrow' hkey
    obtain rfl : k = k' := hkey
    exact hne (eq_of_key henv hsha hindexed.distinct hindexed.valid hr hr' hrow hrow')
  · intro schema hschema now wsId hws
    refine ⟨fun pk hpk => ?_, fun field hfield hunique value hvalue => ?_,
      fun hsome key hkey => ?_, fun field hfield id hid size hsize => ?_⟩
    · exact finds_select henv hindexed hschema now hpk hws
    · exact finds_selectByField henv hsha hindexed hschema now hfield hunique hvalue hws
    · exact finds_selectByCacheKey henv hsha hindexed hschema now hsome hkey
    · exact pageFor_children henv hindexed hschema now hfield hid hws hsize

/-! ## A credential -/

/-- The values of the credentials whose digests are known. -/
def credentialValues : Set Text := {v | v ∈ digests.map Prod.fst}

def firstCredential : Record where
  schema := keyauthCredentials
  item := credential "1d5cb1a1-53c9-4d4b-9d8f-0c9b5c0c2a01" "key-1" (some 100)
  options := .absent

def oneCredential : Lmdb :=
  (∅ : Lmdb).write ((firstCredential.rows credentialsEnv).map fun row => (row.1, some row.2))

theorem defaultWs_ok : WorkspaceOk credentialsEnv.defaultWorkspace := by decide

theorem digests_injOn : Set.InjOn credentialsEnv.sha256Hex credentialValues := by
  have hall : ∀ a ∈ digests.map Prod.fst, ∀ b ∈ digests.map Prod.fst,
      credentialsEnv.sha256Hex a = credentialsEnv.sha256Hex b → a = b := by
    unfold credentialsEnv digests
    rw [ofText_eq_ofAscii]
    decide +kernel
  intro a ha b hb heq
  exact hall a ha b hb heq

theorem keyauthCredentials_ok : SchemaOk credentialsEnv keyauthCredentials where
  known := by decide +kernel
  name := by decide
  fieldNames := by decide +kernel
  fieldName := by decide +kernel
  reference := by
    intro field hfield name hname
    have hall : ∀ field ∈ keyauthCredentials.fields, ∀ name ∈ field.reference,
        field.uniqueAcrossWs = false ∧ name = consumers.name := by decide +kernel
    obtain ⟨hacross, rfl⟩ := hall field hfield name hname
    exact ⟨hacross, consumers, by decide +kernel, rfl⟩

theorem firstCredential_valid : Valid credentialsEnv credentialValues firstCredential where
  schema := keyauthCredentials_ok
  primaryKey :=
    { single := by
        rintro k ⟨⟩
        exact ⟨_, rfl⟩
      composite := fun hne => absurd rfl hne }
  wsId := by decide
  defaultWsId := fun hfalse => by cases hfalse
  fields := by
    have hconsumer : Plain consumerId := by decide
    have hkey : ofText "key-1" ∈ credentialValues := by
      change ofText "key-1" ∈ digests.map Prod.fst
      decide +kernel
    refine List.forall_mem_cons.mpr ⟨?_, List.forall_mem_cons.mpr ⟨?_,
      List.forall_mem_singleton.mpr ?_⟩⟩
    · exact ⟨rfl, fun hunique => by cases hunique⟩
    · exact ⟨rfl, consumerId, rfl, hconsumer, fun hunique => by cases hunique⟩
    · exact ⟨rfl, fun _ => hkey⟩
  cacheKey := fun _ => by
    change _ ∈ digests.map Prod.fst
    unfold firstCredential credential keyauthCredentials credentialsEnv digests defaultWs
    rw [ofText_eq_ofAscii]
    decide +kernel

theorem firstCredential_stored :
    Stores credentialsEnv credentialValues oneCredential [firstCredential] := by
  have hdistinct : Distinct credentialsEnv [firstCredential] := distinct_of_eq fun r hr r' hr' =>
    (List.mem_singleton.mp hr).trans (List.mem_singleton.mp hr').symm
  exact .insert .empty List.not_mem_nil firstCredential_valid hdistinct
    firstCredential_valid.insertEntityForTxn_eq

theorem lmdb_indexes_one_credential :
    Finds keyauthCredentials 99
      (selectByField credentialsEnv oneCredential 99 keyauthCredentials (ofText "cache_key")
        (.text (cacheKey credentialsEnv keyauthCredentials firstCredential.item)) (.id defaultWs))
      [firstCredential]
      (fun r => r.schema = keyauthCredentials ∧ cacheKey credentialsEnv keyauthCredentials r.item
        = cacheKey credentialsEnv keyauthCredentials firstCredential.item) :=
  ((lmdb_indexes_exact credentialsEnv credentialValues defaultWs_ok digests_injOn
    firstCredential_stored).2.2 keyauthCredentials keyauthCredentials_ok 99 defaultWs
    defaultWs_ok).2.2.1 rfl _ (firstCredential_valid.cacheKey rfl)

/-- At 100 a credential that expires then is stored, and no query finds
it. -/
theorem expired_credential_not_found :
    Stores credentialsEnv credentialValues oneCredential [firstCredential]
    ∧ select credentialsEnv oneCredential 100 keyauthCredentials firstCredential.item.get
        (.id defaultWs) = .ok none
    ∧ selectByField credentialsEnv oneCredential 100 keyauthCredentials (ofText "key")
        (.text (ofText "key-1")) (.id defaultWs) = .ok none
    ∧ pageFor credentialsEnv oneCredential keyauthCredentials 100 (ofText "consumer") consumerId
        (.id defaultWs) 1000 none = .ok ([], none) := by
  refine ⟨firstCredential_stored, ?_⟩
  unfold oneCredential firstCredential credential keyauthCredentials credentialsEnv digests
    defaultWs consumerId
  rw [ofText_eq_ofAscii]
  decide +kernel

end KongGateway.Kong.Db.Off

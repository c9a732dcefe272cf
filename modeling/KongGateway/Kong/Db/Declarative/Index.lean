import KongGateway.Kong.Db.Declarative.Keys
import KongGateway.Kong.Db.Off.Each

/-!
# Index — the keys of the stored entities

What LMDB holds after any sequence of inserts and deletes is what the
stored entities say, as long as their primary keys, unique values and
cache keys stay distinct. The readers build the same keys as the writer,
so a query finds the stored entities it asks for, unless they have
expired.

Digests do not collide on a set of values that the stored and the queried
values come from. Names, workspace ids and the ids that foreign keys refer
to have no bar in them; the latter are all called `id`.
-/

namespace KongGateway.Kong.Db.Declarative

open Bytes Off

/-! ## Validated entities -/

/-- A schema that is in `kong.db`. -/
structure SchemaOk (env : Env) (schema : Schema) : Prop where
  known : env.db schema.name = some schema
  name : Plain schema.name
  fieldNames : (schema.fields.map Field.name).Nodup
  fieldName : ∀ field ∈ schema.fields, Plain field.name ∧ field.name ≠ ofText "cache_key"
  reference : ∀ field ∈ schema.fields, ∀ name, field.reference = some name →
    field.uniqueAcrossWs = false
      ∧ ∃ target, env.db name = some target ∧ target.primaryKey = [ofText "id"]

/-- An entity to be written, with its options. -/
structure Record where
  schema : Schema
  item : Entity
  options : WorkspaceOption
  deriving DecidableEq, Repr

/-- The workspace an entity is stored in. -/
def Record.wsId (env : Env) (r : Record) : Text :=
  r.item.wsId.getD (workspaceId env r.schema r.options)

/-- The value of a field as its indexes have it. -/
def Record.fieldText (r : Record) (field : Field) : Option Text :=
  match r.item.get field.name with
  | some (.text s) => some s
  | some (.foreign key) => key.lookup (ofText "id")
  | _ => none

/-- A value that the schema of the field accepts. -/
def FieldOk (values : Set Text) (field : Field) : Option FieldValue → Prop
  | none => True
  | some .null => True
  | some (.text s) => field.reference = none ∧ (field.unique → s ∈ values)
  | some (.foreign key) => field.reference.isSome
      ∧ ∃ id, key = [(ofText "id", id)] ∧ Plain id ∧ (field.unique → id ∈ values)

/-- A workspace id as a part of keys. -/
def WorkspaceOk (wsId : Text) : Prop := Plain wsId ∧ wsId ≠ globalWorkspaceTag ∧ wsId ≠ []

instance (wsId : Text) : Decidable (WorkspaceOk wsId) :=
  inferInstanceAs (Decidable (Plain wsId ∧ wsId ≠ globalWorkspaceTag ∧ wsId ≠ []))

/-- A validated entity. One of a type without workspaces names none, or the
default one. -/
structure Valid (env : Env) (values : Set Text) (r : Record) : Prop where
  schema : SchemaOk env r.schema
  primaryKey : PrimaryKeyOk r.schema r.item.get
  wsId : WorkspaceOk (r.wsId env)
  defaultWsId : r.schema.workspaceable = false → r.wsId env = env.defaultWorkspace
  fields : ∀ field ∈ r.schema.fields, FieldOk values field (r.item.get field.name)
  cacheKey : r.schema.cacheKey.isSome → cacheKey env r.schema r.item ∈ values

/-- Stored entities are told apart by their primary keys, by their unique
values and by their cache keys. -/
structure Distinct (env : Env) (stored : List Record) : Prop where
  primaryKey : ∀ r ∈ stored, ∀ r' ∈ stored, r.schema = r'.schema → r.wsId env = r'.wsId env →
    pkParts r.schema r.item.get = pkParts r'.schema r'.item.get → r = r'
  unique : ∀ r ∈ stored, ∀ r' ∈ stored, r.schema = r'.schema → ∀ field ∈ r.schema.fields,
    field.unique → (field.uniqueAcrossWs ∨ r.wsId env = r'.wsId env) →
    ∀ v, r.fieldText field = some v → r'.fieldText field = some v → r = r'
  cacheKey : ∀ r ∈ stored, ∀ r' ∈ stored, r.schema = r'.schema → r.schema.cacheKey.isSome →
    cacheKey env r.schema r.item = cacheKey env r'.schema r'.item → r = r'

/-- The contents of LMDB and the stored entities after inserts of validated
entities and deletes of stored ones. -/
inductive Stores (env : Env) (values : Set Text) : Lmdb → List Record → Prop
  | empty : Stores env values ∅ []
  | insert {lmdb : Lmdb} {stored : List Record} {r : Record} {ops : Ops} :
      Stores env values lmdb stored → r ∉ stored → Valid env values r →
      Distinct env (r :: stored) →
      insertEntityForTxn env r.schema.name r.item r.options = some ops →
      Stores env values (lmdb.write ops) (r :: stored)
  | delete {lmdb : Lmdb} {stored : List Record} {r : Record} {ops : Ops} :
      Stores env values lmdb stored → r ∈ stored →
      deleteEntityForTxn env r.schema.name r.item r.options = some ops →
      Stores env values (lmdb.write ops) (stored.erase r)

/-! ## The rows of an entity -/

def Record.itemKey (env : Env) (r : Record) : Text :=
  Declarative.itemKey r.schema.name (r.wsId env) (pkString r.schema r.item.get)

/-- The workspace in the unique key of a field. -/
def Record.fieldWsId (env : Env) (r : Record) (field : Field) : Text :=
  if field.uniqueAcrossWs then env.defaultWorkspace else r.wsId env

/-- The index keys of an entity. -/
inductive IndexKey (env : Env) (r : Record) : Text → Prop
  | cacheKey : r.schema.cacheKey.isSome →
      IndexKey env r (uniqueFieldKey env r.schema.name env.defaultWorkspace (ofText "cache_key")
        (cacheKey env r.schema r.item))
  | unique {field : Field} {v : Text} : field ∈ r.schema.fields → field.unique →
      r.fieldText field = some v →
      IndexKey env r (uniqueFieldKey env r.schema.name (r.fieldWsId env field) field.name v)
  | foreign {field : Field} {id : Text} : field ∈ r.schema.fields →
      r.item.get field.name = some (.foreign [(ofText "id", id)]) →
      IndexKey env r (foreignFieldKey r.schema.name (r.wsId env) field.name id
        (pkString r.schema r.item.get))

/-- The entries for an entity. -/
def Record.rows (env : Env) (r : Record) : List (Text × Value) :=
  match entityKeys env r.schema.name r.item r.options with
  | none => []
  | some (itmKey, idxKeys) => (itmKey, .item r.item) :: idxKeys.map fun key => (key, .text itmKey)

variable {env : Env} {values : Set Text}

/-- The index keys for a field of a validated entity. -/
def Record.fieldKeys (env : Env) (r : Record) (field : Field) : List Text :=
  match r.item.get field.name with
  | some (.text s) =>
    if field.unique then
      [uniqueFieldKey env r.schema.name (r.fieldWsId env field) field.name s]
    else []
  | some (.foreign key) =>
    let id := (key.lookup (ofText "id")).getD []
    (if field.unique then
      [uniqueFieldKey env r.schema.name (r.fieldWsId env field) field.name id] else [])
      ++ [foreignFieldKey r.schema.name (r.wsId env) field.name id
        (pkString r.schema r.item.get)]
  | _ => []

theorem Valid.fieldKeys_eq {r : Record} (h : Valid env values r) {field : Field}
    (hfield : field ∈ r.schema.fields) :
    Declarative.fieldKeys env r.schema.name (r.wsId env) (pkString r.schema r.item.get) r.item
      field = some (r.fieldKeys env field) := by
  have hok := h.fields field hfield
  unfold Declarative.fieldKeys Record.fieldKeys
  cases hget : r.item.get field.name with
  | none => rfl
  | some value =>
    rw [hget] at hok
    cases value with
    | null => rfl
    | text s =>
      obtain ⟨href, -⟩ := hok
      cases hunique : field.unique <;>
        simp [uniqueKeys, uniqueValue, foreignKeys, href, hunique, tostring, Record.fieldWsId]
    | foreign key =>
      obtain ⟨href, id, rfl, -, -⟩ := hok
      obtain ⟨name, hname⟩ := Option.isSome_iff_exists.mp href
      obtain ⟨hacross, target, htarget, hpk⟩ := h.schema.reference field hfield name hname
      have hid : pkString target (foreignGet [(ofText "id", id)]) = id := by
        rw [pkString_single hpk]
        simp [foreignGet, tostring]
      cases hunique : field.unique <;>
        simp [uniqueKeys, uniqueValue, foreignKeys, hunique, hname, htarget, hid, hacross, Record.fieldWsId]

theorem Valid.entityKeys_eq {r : Record} (h : Valid env values r) :
    entityKeys env r.schema.name r.item r.options
      = some (r.itemKey env, cacheKeyKeys env r.schema.name r.schema r.item
          ++ (r.schema.fields.map (r.fieldKeys env)).flatten) := by
  have hfields : r.schema.fields.mapM (Declarative.fieldKeys env r.schema.name (r.wsId env)
      (pkString r.schema r.item.get) r.item) = some (r.schema.fields.map (r.fieldKeys env)) :=
    MapM.eq_pure_map fun field hfield => h.fieldKeys_eq hfield
  have hws : r.item.wsId.getD (workspaceId env r.schema r.options) ≠ globalWorkspaceTag :=
    h.wsId.2.1
  rw [Record.wsId] at hfields
  simp only [entityKeys, h.schema.known, Option.bind_eq_bind, Option.bind_some, if_neg hws,
    hfields]
  rfl

theorem mem_fieldKeys {r : Record} (h : Valid env values r) {field : Field}
    (hfield : field ∈ r.schema.fields) {k : Text} (hk : k ∈ r.fieldKeys env field) :
    IndexKey env r k := by
  have hok := h.fields field hfield
  unfold Record.fieldKeys at hk
  cases hget : r.item.get field.name with
  | none => simp [hget] at hk
  | some value =>
    rw [hget] at hok
    cases value with
    | null => simp [hget] at hk
    | text s =>
      simp only [hget] at hk
      split at hk
      · rename_i hunique
        rw [List.mem_singleton.mp hk]
        exact .unique hfield hunique (by simp [Record.fieldText, hget])
      · cases hk
    | foreign key =>
      obtain ⟨-, id, rfl, -, -⟩ := hok
      simp only [hget, List.lookup_cons_self, Option.getD_some, List.mem_append,
        List.mem_singleton] at hk
      rcases hk with hk | rfl
      · split at hk
        · rename_i hunique
          rw [List.mem_singleton.mp hk]
          exact .unique hfield hunique (by simp [Record.fieldText, hget])
        · cases hk
      · exact .foreign hfield hget

theorem unique_mem_fieldKeys {r : Record} {field : Field} {v : Text} (hunique : field.unique)
    (hv : r.fieldText field = some v) :
    uniqueFieldKey env r.schema.name (r.fieldWsId env field) field.name v
      ∈ r.fieldKeys env field := by
  unfold Record.fieldText at hv
  unfold Record.fieldKeys
  cases hget : r.item.get field.name with
  | none => simp [hget] at hv
  | some value =>
    cases value with
    | null => simp [hget] at hv
    | text s =>
      simp only [hget, Option.some.injEq] at hv
      simp [hunique, hv]
    | foreign key =>
      simp only [hget] at hv
      simp [hunique, hv]

/-- The rows of a validated entity: the item under its key, and pointers to
it under its index keys. -/
theorem Valid.mem_rows_iff {r : Record} (h : Valid env values r) {k : Text} {v : Value} :
    (k, v) ∈ r.rows env ↔
      (k = r.itemKey env ∧ v = .item r.item)
        ∨ (IndexKey env r k ∧ v = .text (r.itemKey env)) := by
  have hidx : k ∈ cacheKeyKeys env r.schema.name r.schema r.item
      ++ (r.schema.fields.map (r.fieldKeys env)).flatten ↔ IndexKey env r k := by
    rw [List.mem_append, List.mem_flatten]
    constructor
    · rintro (hk | ⟨keys, hkeys, hk⟩)
      · unfold cacheKeyKeys at hk
        split at hk
        · rename_i hsome
          rw [List.mem_singleton.mp hk]
          exact .cacheKey hsome
        · cases hk
      · obtain ⟨field, hfield, rfl⟩ := List.mem_map.mp hkeys
        exact mem_fieldKeys h hfield hk
    · intro hk
      cases hk with
      | cacheKey hsome => exact .inl (by simp [cacheKeyKeys, hsome])
      | unique hfield hunique hv =>
        exact .inr ⟨_, List.mem_map.mpr ⟨_, hfield, rfl⟩, unique_mem_fieldKeys hunique hv⟩
      | foreign hfield hget =>
        refine .inr ⟨_, List.mem_map.mpr ⟨_, hfield, rfl⟩, ?_⟩
        simp [Record.fieldKeys, hget]
  unfold Record.rows
  rw [h.entityKeys_eq]
  simp only [List.mem_cons, Prod.mk.injEq, List.mem_map, ← hidx]
  constructor
  · rintro (hitem | ⟨key, hkey, rfl, rfl⟩)
    · exact .inl hitem
    · exact .inr ⟨hkey, rfl⟩
  · rintro (hitem | ⟨hkey, rfl⟩)
    · exact .inl hitem
    · exact .inr ⟨k, hkey, rfl, rfl⟩

theorem IndexKey.ne_itemKey {r : Record} {k : Text} (h : IndexKey env r k)
    (name wsId pk : Text) : k ≠ Declarative.itemKey name wsId pk := by
  intro heq
  have hhead := congrArg List.head? heq
  rw [head?_itemKey] at hhead
  cases h with
  | cacheKey _ => exact absurd hhead (by rw [head?_uniqueFieldKey]; decide)
  | unique _ _ _ => exact absurd hhead (by rw [head?_uniqueFieldKey]; decide)
  | foreign _ _ => exact absurd hhead (by rw [head?_foreignFieldKey]; decide)

/-! ## Keys belong to one entity -/

theorem SchemaOk.eq_of_name {schema schema' : Schema} (h : SchemaOk env schema)
    (h' : SchemaOk env schema') (hname : schema.name = schema'.name) : schema = schema' := by
  have hknown := h.known
  rw [hname, h'.known] at hknown
  exact (Option.some.inj hknown).symm

theorem SchemaOk.field_eq {schema : Schema} (h : SchemaOk env schema) {field field' : Field}
    (hmem : field ∈ schema.fields) (hmem' : field' ∈ schema.fields)
    (hname : field.name = field'.name) : field = field' :=
  List.inj_on_of_nodup_map h.fieldNames hmem hmem' hname

theorem Valid.fieldText_mem {r : Record} (h : Valid env values r) {field : Field}
    (hfield : field ∈ r.schema.fields) (hunique : field.unique) {v : Text}
    (hv : r.fieldText field = some v) : v ∈ values := by
  have hok := h.fields field hfield
  unfold Record.fieldText at hv
  cases hget : r.item.get field.name with
  | none => simp [hget] at hv
  | some value =>
    rw [hget] at hok
    cases value with
    | null => simp [hget] at hv
    | text s =>
      simp only [hget, Option.some.injEq] at hv
      exact hv ▸ hok.2 hunique
    | foreign key =>
      obtain ⟨-, id, rfl, -, hmem⟩ := hok
      simp only [hget, List.lookup_cons_self, Option.some.injEq] at hv
      exact hv ▸ hmem hunique

theorem Valid.foreign_plain {r : Record} (h : Valid env values r) {field : Field}
    (hfield : field ∈ r.schema.fields) {id : Text}
    (hget : r.item.get field.name = some (.foreign [(ofText "id", id)])) : Plain id := by
  have hok := h.fields field hfield
  rw [hget] at hok
  obtain ⟨-, id', heq, hplain, -⟩ := hok
  simp only [List.cons.injEq, Prod.mk.injEq, true_and, and_true] at heq
  exact heq ▸ hplain

section Sharing

variable (henv : WorkspaceOk env.defaultWorkspace) (hsha : Set.InjOn env.sha256Hex values)
  {stored : List Record} (hdistinct : Distinct env stored)
  (hvalid : ∀ r ∈ stored, Valid env values r)

include henv in
theorem Valid.fieldWsId_plain {r : Record} (h : Valid env values r) (field : Field) :
    Plain (r.fieldWsId env field) := by
  unfold Record.fieldWsId
  split
  · exact henv.1
  · exact h.wsId.1

include hdistinct hvalid in
theorem eq_of_itemKey {r r' : Record} (hr : r ∈ stored) (hr' : r' ∈ stored)
    (h : r.itemKey env = r'.itemKey env) : r = r' := by
  have hv := hvalid r hr
  have hv' := hvalid r' hr'
  obtain ⟨hname, hws, hpk⟩ := itemKey_inj hv.schema.name hv'.schema.name hv.wsId.1 hv'.wsId.1
    hv.wsId.2.1 hv'.wsId.2.1 h
  have hschema := hv.schema.eq_of_name hv'.schema hname
  refine hdistinct.primaryKey r hr r' hr' hschema hws ?_
  have hpk' := hv'.primaryKey
  rw [← hschema] at hpk' hpk ⊢
  exact pkString_inj hv.primaryKey hpk' hpk

include hsha hvalid in
theorem eq_of_uniqueFieldKey {r r' : Record} (hr : r ∈ stored) (hr' : r' ∈ stored)
    {wsId wsId' field field' v v' : Text} (hws : Plain wsId) (hws' : Plain wsId')
    (hfield : Plain field) (hfield' : Plain field') (hv : v ∈ values) (hv' : v' ∈ values)
    (h : uniqueFieldKey env r.schema.name wsId field v
      = uniqueFieldKey env r'.schema.name wsId' field' v') :
    r.schema = r'.schema ∧ field = field' ∧ wsId = wsId' ∧ v = v' := by
  have hs := (hvalid r hr).schema
  have hs' := (hvalid r' hr').schema
  obtain ⟨hname, hfields, hwsIds, hdigest⟩ :=
    uniqueFieldKey_inj hs.name hs'.name hfield hfield' hws hws' h
  exact ⟨hs.eq_of_name hs' hname, hfields, hwsIds, hsha hv hv' hdigest⟩

include henv hsha hdistinct hvalid in
theorem eq_of_indexKey {r r' : Record} (hr : r ∈ stored) (hr' : r' ∈ stored) {k : Text}
    (hk : IndexKey env r k) (hk' : IndexKey env r' k) : r = r' := by
  have hv := hvalid r hr
  have hv' := hvalid r' hr'
  have hcacheName : Plain (ofText "cache_key") := by decide
  cases hk with
  | cacheKey hsome =>
    generalize hkey : uniqueFieldKey env r.schema.name env.defaultWorkspace (ofText "cache_key")
      (cacheKey env r.schema r.item) = k at hk'
    cases hk' with
    | cacheKey hsome' =>
      obtain ⟨hschema, -, -, hvalue⟩ := eq_of_uniqueFieldKey hsha hvalid hr hr' henv.1 henv.1
        hcacheName hcacheName (hv.cacheKey hsome) (hv'.cacheKey hsome') hkey
      exact hdistinct.cacheKey r hr r' hr' hschema hsome hvalue
    | unique hfield' hunique' hvalue' =>
      obtain ⟨-, hname, -⟩ := eq_of_uniqueFieldKey hsha hvalid hr hr' henv.1
        (hv'.fieldWsId_plain henv _) hcacheName (hv'.schema.fieldName _ hfield').1
        (hv.cacheKey hsome) (hv'.fieldText_mem hfield' hunique' hvalue') hkey
      exact absurd hname.symm (hv'.schema.fieldName _ hfield').2
    | foreign hfield' hget' =>
      have hhead := congrArg List.head? hkey
      rw [head?_uniqueFieldKey, head?_foreignFieldKey] at hhead
      exact absurd hhead (by decide)
  | @unique field v hfield hunique hvalue =>
    generalize hkey : uniqueFieldKey env r.schema.name (r.fieldWsId env field) field.name v = k
      at hk'
    have hplain := hv.fieldWsId_plain henv field
    have hmem := hv.fieldText_mem hfield hunique hvalue
    cases hk' with
    | cacheKey hsome' =>
      obtain ⟨-, hname, -⟩ := eq_of_uniqueFieldKey hsha hvalid hr hr' hplain henv.1
        (hv.schema.fieldName _ hfield).1 hcacheName hmem (hv'.cacheKey hsome') hkey
      exact absurd hname (hv.schema.fieldName _ hfield).2
    | @unique field' v' hfield' hunique' hvalue' =>
      obtain ⟨hschema, hname, hwsId, rfl⟩ := eq_of_uniqueFieldKey hsha hvalid hr hr' hplain
        (hv'.fieldWsId_plain henv field') (hv.schema.fieldName _ hfield).1
        (hv'.schema.fieldName _ hfield').1 hmem
        (hv'.fieldText_mem hfield' hunique' hvalue') hkey
      obtain rfl := hv.schema.field_eq hfield (hschema ▸ hfield') hname
      refine hdistinct.unique r hr r' hr' hschema field hfield hunique ?_ v hvalue hvalue'
      by_cases hacross : field.uniqueAcrossWs = true
      · exact .inl hacross
      · simp only [Record.fieldWsId, if_neg hacross] at hwsId
        exact .inr hwsId
    | foreign hfield' hget' =>
      have hhead := congrArg List.head? hkey
      rw [head?_uniqueFieldKey, head?_foreignFieldKey] at hhead
      exact absurd hhead (by decide)
  | @foreign field id hfield hget =>
    generalize hkey : foreignFieldKey r.schema.name (r.wsId env) field.name id
      (pkString r.schema r.item.get) = k at hk'
    have hhead := congrArg List.head? hkey
    rw [head?_foreignFieldKey] at hhead
    cases hk' with
    | cacheKey hsome' =>
      rw [head?_uniqueFieldKey] at hhead
      exact absurd hhead (by decide)
    | unique hfield' hunique' hvalue' =>
      rw [head?_uniqueFieldKey] at hhead
      exact absurd hhead (by decide)
    | @foreign field' id' hfield' hget' =>
      obtain ⟨hname, -, -, hws, hpk⟩ := foreignFieldKey_inj hv.schema.name hv'.schema.name
        (hv.schema.fieldName _ hfield).1 (hv'.schema.fieldName _ hfield').1
        (hv.foreign_plain hfield hget) (hv'.foreign_plain hfield' hget') hv.wsId.1 hv'.wsId.1
        hv.wsId.2.1 hv'.wsId.2.1 hkey
      refine eq_of_itemKey hdistinct hvalid hr hr' ?_
      rw [Record.itemKey, Record.itemKey, hname, hws, hpk]

include henv hsha hdistinct hvalid in
theorem eq_of_key {r r' : Record} (hr : r ∈ stored) (hr' : r' ∈ stored) {k : Text} {v v' : Value}
    (hk : (k, v) ∈ r.rows env) (hk' : (k, v') ∈ r'.rows env) : r = r' := by
  rcases (hvalid r hr).mem_rows_iff.mp hk with ⟨hkey, -⟩ | ⟨hkey, -⟩
  · rcases (hvalid r' hr').mem_rows_iff.mp hk' with ⟨hkey', -⟩ | ⟨hkey', -⟩
    · exact eq_of_itemKey hdistinct hvalid hr hr' (hkey.symm.trans hkey')
    · exact absurd hkey (hkey'.ne_itemKey _ _ _)
  · rcases (hvalid r' hr').mem_rows_iff.mp hk' with ⟨hkey', -⟩ | ⟨hkey', -⟩
    · exact absurd hkey' (hkey.ne_itemKey _ _ _)
    · exact eq_of_indexKey henv hsha hdistinct hvalid hr hr' hkey hkey'

theorem Valid.rows_functional {r : Record} (h : Valid env values r) {a b : Text × Value}
    (ha : a ∈ r.rows env) (hb : b ∈ r.rows env) (hkey : a.1 = b.1) : a = b := by
  obtain ⟨k, v⟩ := a
  obtain ⟨k', v'⟩ := b
  obtain rfl : k = k' := hkey
  rcases h.mem_rows_iff.mp ha with ⟨hk, hv⟩ | ⟨hk, hv⟩
  · rcases h.mem_rows_iff.mp hb with ⟨-, hv'⟩ | ⟨hk', -⟩
    · rw [hv, hv']
    · exact absurd hk (hk'.ne_itemKey _ _ _)
  · rcases h.mem_rows_iff.mp hb with ⟨hk', -⟩ | ⟨-, hv'⟩
    · exact absurd hk' (hk.ne_itemKey _ _ _)
    · rw [hv, hv']

end Sharing

/-! ## Runs -/

theorem insertOps_eq (env : Env) (r : Record) {ops : Ops}
    (h : insertEntityForTxn env r.schema.name r.item r.options = some ops) :
    ops = (r.rows env).map fun row => (row.1, some row.2) := by
  unfold insertEntityForTxn setEntityForTxn at h
  unfold Record.rows
  cases hkeys : entityKeys env r.schema.name r.item r.options with
  | none => simp [hkeys] at h
  | some keys =>
    simp only [hkeys, Option.bind_eq_bind, Option.bind_some, Bool.false_eq_true, if_false,
      Option.some.injEq] at h
    rw [← h]
    simp

theorem deleteOps_eq (env : Env) (r : Record) {ops : Ops}
    (h : deleteEntityForTxn env r.schema.name r.item r.options = some ops) :
    ops = ((r.rows env).map Prod.fst).map fun k => (k, none) := by
  unfold deleteEntityForTxn setEntityForTxn at h
  unfold Record.rows
  cases hkeys : entityKeys env r.schema.name r.item r.options with
  | none => simp [hkeys] at h
  | some keys =>
    simp only [hkeys, Option.bind_eq_bind, Option.bind_some, if_true, Option.some.injEq] at h
    rw [← h]
    simp

theorem Valid.insertEntityForTxn_eq {r : Record} (h : Valid env values r) :
    insertEntityForTxn env r.schema.name r.item r.options
      = some ((r.rows env).map fun row => (row.1, some row.2)) := by
  cases hops : insertEntityForTxn env r.schema.name r.item r.options with
  | none => simp [insertEntityForTxn, setEntityForTxn, h.entityKeys_eq] at hops
  | some ops => rw [insertOps_eq env r hops]

/-- What holds of LMDB and the stored entities in a run. -/
structure Indexed (env : Env) (values : Set Text) (lmdb : Lmdb) (stored : List Record) : Prop where
  nodup : stored.Nodup
  valid : ∀ r ∈ stored, Valid env values r
  distinct : Distinct env stored
  holds : lmdb.Holds {row | ∃ r ∈ stored, row ∈ r.rows env}

theorem Distinct.subset {stored stored' : List Record} (h : Distinct env stored)
    (hsub : stored' ⊆ stored) : Distinct env stored' where
  primaryKey := fun r hr r' hr' => h.primaryKey r (hsub hr) r' (hsub hr')
  unique := fun r hr r' hr' => h.unique r (hsub hr) r' (hsub hr')
  cacheKey := fun r hr r' hr' => h.cacheKey r (hsub hr) r' (hsub hr')

theorem distinct_of_eq {stored : List Record} (h : ∀ r ∈ stored, ∀ r' ∈ stored, r = r') :
    Distinct env stored where
  primaryKey := fun r hr r' hr' _ _ _ => h r hr r' hr'
  unique := fun r hr r' hr' _ _ _ _ _ _ _ _ => h r hr r' hr'
  cacheKey := fun r hr r' hr' _ _ _ => h r hr r' hr'

section Run

variable (henv : WorkspaceOk env.defaultWorkspace) (hsha : Set.InjOn env.sha256Hex values)
  {lmdb : Lmdb} {stored : List Record}

include henv hsha

theorem Indexed.insert (h : Indexed env values lmdb stored) {r : Record} (hnew : r ∉ stored)
    (hvalid : Valid env values r) (hdistinct : Distinct env (r :: stored)) :
    Indexed env values (lmdb.write ((r.rows env).map fun row => (row.1, some row.2)))
      (r :: stored) where
  nodup := List.nodup_cons.mpr ⟨hnew, h.nodup⟩
  valid := List.forall_mem_cons.mpr ⟨hvalid, h.valid⟩
  distinct := hdistinct
  holds := by
    have hall : ∀ r' ∈ r :: stored, Valid env values r' :=
      List.forall_mem_cons.mpr ⟨hvalid, h.valid⟩
    have hown : ∀ a ∈ r.rows env, ∀ b ∈ r.rows env, a.1 = b.1 → a = b :=
      fun a ha b hb hkey => hvalid.rows_functional ha hb hkey
    have hother : ∀ a ∈ {row | ∃ r ∈ stored, row ∈ r.rows env}, ∀ b ∈ r.rows env,
        a.1 ≠ b.1 := by
      rintro ⟨k, v⟩ ⟨r', hr', ha⟩ ⟨k', v'⟩ hb hkey
      obtain rfl : k = k' := hkey
      have heq := eq_of_key henv hsha hdistinct hall (List.mem_cons_of_mem r hr')
        List.mem_cons_self ha hb
      exact hnew (heq ▸ hr')
    intro k v
    rw [h.holds.insert hown hother k v]
    simp only [Set.mem_union, Set.mem_ofPred_eq, List.mem_cons, exists_eq_or_imp]
    exact or_comm

theorem Indexed.delete (h : Indexed env values lmdb stored) {r : Record} (hr : r ∈ stored) :
    Indexed env values (lmdb.write (((r.rows env).map Prod.fst).map fun k => (k, none)))
      (stored.erase r) where
  nodup := h.nodup.erase r
  valid := fun r' hr' => h.valid r' (List.mem_of_mem_erase hr')
  distinct := h.distinct.subset (List.erase_subset)
  holds := by
    intro k v
    rw [h.holds.delete _ k v]
    simp only [Set.mem_ofPred_eq]
    constructor
    · rintro ⟨⟨r', hr', hrow⟩, hkey⟩
      refine ⟨r', (h.nodup.mem_erase_iff).mpr ⟨?_, hr'⟩, hrow⟩
      rintro rfl
      exact hkey (List.mem_map.mpr ⟨(k, v), hrow, rfl⟩)
    · rintro ⟨r', hr', hrow⟩
      obtain ⟨hne, hmem⟩ := h.nodup.mem_erase_iff.mp hr'
      refine ⟨⟨r', hmem, hrow⟩, fun hkey => ?_⟩
      obtain ⟨⟨k', w⟩, hrow', rfl⟩ := List.mem_map.mp hkey
      exact hne (eq_of_key henv hsha h.distinct h.valid hmem hr hrow hrow')

theorem Stores.indexed (h : Stores env values lmdb stored) : Indexed env values lmdb stored := by
  induction h with
  | empty =>
    refine ⟨List.nodup_nil, fun r hr => (List.not_mem_nil hr).elim,
      distinct_of_eq fun r hr => (List.not_mem_nil hr).elim, ?_⟩
    intro k v
    simp
  | @insert lmdb stored r ops _ hnew hvalid hdistinct hops ih =>
    rw [insertOps_eq env r hops]
    exact ih.insert henv hsha hnew hvalid hdistinct
  | @delete lmdb stored r ops _ hr hops ih =>
    rw [deleteOps_eq env r hops]
    exact ih.delete henv hsha hr

end Run

end KongGateway.Kong.Db.Declarative

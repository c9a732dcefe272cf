import KongGateway.Lib.References
import KongGateway.Kong.Clustering.Sync.Batch

/-!
# References — foreign keys after a sync

`validate_deltas` looks for the entity of a foreign key among the deltas
and, in an incremental sync, in LMDB. The map of the deltas has the primary
keys of all types together, and the value it finds is not asked for its
type.

Rows are the stored entities, their names a type and a primary key; which
workspace an entity is stored in does not matter to a reference.
-/

namespace KongGateway.Kong.Clustering.Apply

open Bytes Db.Declarative Db.Off

/-! ## Stored entities -/

/-- A type and a primary key. -/
abbrev EntityName := Text × Text

def storedRows (p : Params) (lmdb : Lmdb) : Set (EntityName × Schema × Entity) :=
  {row | p.db row.1.1 = some row.2.1 ∧ ∃ wsId, WsPart wsId
    ∧ lmdb.get (itemKey row.1.1 wsId row.1.2) = some (.item row.2.2)}

/-- `pk_string` of a foreign key, with the schema of the type it refers
to. -/
def foreignPk (p : Params) (reference : Text) (key : List (Text × Text)) : Text :=
  ((p.db reference).map fun schema => pkString schema (foreignGet key)).getD []

/-- What the foreign keys of an entity refer to. -/
def foreignRefs (p : Params) (schema : Schema) (entity : Entity) : List EntityName :=
  schema.fields.filterMap fun field =>
    match field.reference, entity.get field.name with
    | some reference, some (.foreign key) => some (reference, foreignPk p reference key)
    | _, _ => none

/-- Every foreign key of a stored entity is the primary key of a stored
entity of the type it refers to. -/
def ReferencesClosed (p : Params) (lmdb : Lmdb) : Prop :=
  References.Closed (fun row => {name | name ∈ foreignRefs p row.1 row.2}) (storedRows p lmdb)

/-- Entities lie under their primary keys, and in the workspaces they name. -/
def WellKeyed (p : Params) (lmdb : Lmdb) : Prop :=
  ∀ type schema wsId pk entity, p.db type = some schema → WsPart wsId →
    lmdb.get (itemKey type wsId pk) = some (.item entity) →
    pkString schema entity.get = pk ∧ entity.wsId.getD wsId = wsId

/-! ## Upserts -/

/-- The type and the primary key of the entity of a delta. -/
def Delta.name (p : Params) (delta : Delta) : Option EntityName :=
  delta.entity.bind fun entity =>
    (p.db delta.type).map fun schema => (delta.type, pkString schema entity.get)

/-- The keys of `deltas_map`. -/
def deltasMap (p : Params) (deltas : List Delta) : List Text :=
  deltas.filterMap fun delta => (delta.name p).map Prod.snd

/-- No later delta replaces or removes the entity of a delta. -/
def Lasting (p : Params) (env : Env) (lmdb : Lmdb) (deltas : List Delta) (delta : Delta) : Prop :=
  ∃ earlier later, deltas = earlier ++ delta :: later
    ∧ ∀ after ∈ later, ∀ key ∈ delta.insertKey env,
        after.insertKey env ≠ some key ∧ key ∉ after.committedKeys p env lmdb

/-- The entities of the deltas that are there afterwards. -/
def lastingRows (p : Params) (env : Env) (lmdb : Lmdb) (deltas : List Delta) :
    Set (EntityName × Schema × Entity) :=
  {row | ∃ delta, Lasting p env lmdb deltas delta ∧ p.db delta.type = some row.2.1
    ∧ delta.entity = some row.2.2 ∧ delta.name p = some row.1}

/-- A foreign key whose text is among the primary keys of the deltas is that
of a delta of the type it refers to, or of an entity of that type that was
stored. -/
def FoundByType (p : Params) (env : Env) (lmdb : Lmdb) (deltas : List Delta) : Prop :=
  ∀ row ∈ lastingRows p env lmdb (deltas.map (Delta.prepared p)),
    ∀ name ∈ foreignRefs p row.2.1 row.2.2, name.2 ∈ deltasMap p deltas →
      name ∈ (deltas.map (Delta.prepared p)).filterMap (Delta.name p)
        ∨ name ∈ References.names (storedRows p lmdb)

/-- The contents after the steps of a sync. -/
def batchStore (p : Params) (env : Env) (lmdb : Lmdb) (deltas : List Delta) : Lmdb :=
  lmdb.write ((batchSteps p env lmdb deltas).flatMap OrderedStore.stepOps)

/-! ## Contents after a list of upserts -/

section Store

variable {p : Params} {defaultWs : Text} {lmdb : Lmdb} {deltas : List Delta} {delta : Delta}

theorem name_of_schema {schema : Schema} {entity : Entity} (hschema : p.db delta.type = some schema)
    (hentity : delta.entity = some entity) :
    delta.name p = some (delta.type, pkString schema entity.get) := by
  simp [Delta.name, hschema, hentity]

theorem SameEntities.storedRows {s t : Lmdb} (h : SameEntities s t) :
    storedRows p s = storedRows p t := by
  ext row
  simp only [Apply.storedRows, Set.mem_ofPred_eq, h _ (.inl (head?_itemKey _ _ _))]

theorem insertKey_eq (hok : DeltaOk p (p.env defaultWs) delta) {key : Text}
    (h : delta.insertKey (p.env defaultWs) = some key) :
    ∃ schema entity wsId, p.db delta.type = some schema ∧ delta.entity = some entity
      ∧ WsPart wsId ∧ entity.wsId.getD wsId = wsId
      ∧ key = itemKey delta.type wsId (pkString schema entity.get) := by
  obtain ⟨schema, entity, hschema, hentity, rfl⟩ := insertKey_some h
  refine ⟨schema, entity, _, hschema, hentity, (hok schema hschema).2 entity hentity, ?_, rfl⟩
  cases entity.wsId <;> rfl

theorem name_of_insertKey (hp : RegistryOk p) (hok : DeltaOk p (p.env defaultWs) delta)
    {type wsId pk : Text} {schema : Schema} (hschema : p.db type = some schema)
    (hws : WsPart wsId)
    (h : delta.insertKey (p.env defaultWs) = some (itemKey type wsId pk)) :
    delta.type = type ∧ ∃ entity, delta.entity = some entity
      ∧ pkString schema entity.get = pk ∧ entity.wsId.getD wsId = wsId := by
  obtain ⟨schema', entity, wsId', hschema', hentity, hws', hgetD, heq⟩ := insertKey_eq hok h
  obtain ⟨rfl, rfl, rfl⟩ := itemKey_inj (hp _ _ hschema).2 (hp _ _ hschema').2 hws.1 hws'.1
    hws.2 hws'.2 heq
  obtain rfl : schema = schema' := Option.some.inj (hschema.symm.trans hschema')
  exact ⟨rfl, entity, hentity, rfl, hgetD⟩

theorem get_batchStore_append_singleton {key : Text} (hkey : key.head? = some 73)
    (lmdb : Lmdb) (deltas : List Delta) (delta : Delta) :
    (batchStore p (p.env defaultWs) lmdb (deltas ++ [delta])).get key
      = if delta.insertKey (p.env defaultWs) = some key then delta.entity.map .item
        else if key ∈ delta.committedKeys p (p.env defaultWs) lmdb then none
        else (batchStore p (p.env defaultWs) lmdb deltas).get key := by
  rw [← get_write_step hkey]
  simp only [batchStore, batchSteps, List.map_append, List.map_cons, List.map_nil,
    List.flatMap_append, List.flatMap_singleton, OrderedStore.write_append]

theorem get_batchStore_of_lasting {key : Text}
    (h : Lasting p (p.env defaultWs) lmdb deltas delta)
    (hkey : delta.insertKey (p.env defaultWs) = some key) :
    (batchStore p (p.env defaultWs) lmdb deltas).get key = delta.entity.map .item := by
  have hhead : key.head? = some 73 := by
    obtain ⟨schema, entity, -, -, rfl⟩ := insertKey_some hkey
    exact head?_itemKey _ _ _
  obtain ⟨earlier, later, rfl, hlater⟩ := h
  induction later using List.reverseRecOn with
  | nil => rw [get_batchStore_append_singleton hhead, if_pos hkey]
  | append_singleton later after ih =>
    obtain ⟨hinsert, hremove⟩ :=
      hlater after (List.mem_append_right later List.mem_cons_self) key hkey
    have hassoc : earlier ++ delta :: (later ++ [after])
        = (earlier ++ delta :: later) ++ [after] := by simp
    rw [hassoc, get_batchStore_append_singleton hhead, if_neg hinsert, if_neg hremove]
    exact ih fun d hd => hlater d (List.mem_append_left [after] hd)

/-- What is there was stored before, or is the entity of a lasting delta. -/
theorem get_batchStore_cases {key : Text} (hhead : key.head? = some 73) {entity : Entity}
    (h : (batchStore p (p.env defaultWs) lmdb deltas).get key = some (.item entity)) :
    lmdb.get key = some (.item entity)
      ∨ ∃ delta, Lasting p (p.env defaultWs) lmdb deltas delta
          ∧ delta.insertKey (p.env defaultWs) = some key ∧ delta.entity = some entity := by
  induction deltas using List.reverseRecOn with
  | nil => exact .inl h
  | append_singleton deltas after ih =>
    rw [get_batchStore_append_singleton hhead] at h
    split at h
    · rename_i hinsert
      refine .inr ⟨after, ⟨deltas, [], rfl, by simp⟩, hinsert, ?_⟩
      simpa using h
    · rename_i hinsert
      split at h
      · cases h
      · rename_i hremove
        rcases ih h with hbefore | ⟨delta, ⟨earlier, later, rfl, hlater⟩, hkey, hentity⟩
        · exact .inl hbefore
        · refine .inr ⟨delta, ⟨earlier, later ++ [after], by simp, ?_⟩, hkey, hentity⟩
          intro d hd key' hkey'
          obtain rfl : key = key' := Option.some.inj (hkey.symm.trans hkey')
          rcases List.mem_append.mp hd with hd | hd
          · exact hlater d hd key hkey
          · rw [List.mem_singleton.mp hd]
            exact ⟨hinsert, hremove⟩

theorem WellKeyed.lookup (hwell : WellKeyed p lmdb) (hp : RegistryOk p)
    (hok : DeltaOk p (p.env defaultWs) delta)
    (hinsert : (delta.insertKey (p.env defaultWs)).isSome) :
    delta.OwnLookup p (p.env defaultWs) lmdb := by
  intro schema entity hschema hget
  obtain ⟨key, hkey⟩ := Option.isSome_iff_exists.mp hinsert
  obtain ⟨_, upserted, -, hupserted, -⟩ := insertKey_some hkey
  have hoptions : delta.options = .absent := by simp [Delta.options, hupserted]
  have hws := (hok schema hschema).1
  have hname := (hp _ _ hschema).1
  rw [hoptions, workspaceId_absent] at hget hws ⊢
  have hdb : p.db schema.name = some schema := by rw [hname]; exact hschema
  obtain ⟨hpk, hwsId⟩ := hwell _ _ _ _ entity hdb hws hget
  rw [ownKey, workspaceId_absent, hwsId, hpk]

theorem mem_names_storedRows {name : EntityName} :
    name ∈ References.names (storedRows p lmdb)
      ↔ ∃ schema wsId entity, p.db name.1 = some schema ∧ WsPart wsId
          ∧ lmdb.get (itemKey name.1 wsId name.2) = some (.item entity) := by
  constructor
  · rintro ⟨row, ⟨hschema, wsId, hws, hget⟩, rfl⟩
    exact ⟨row.2.1, wsId, row.2.2, hschema, hws, hget⟩
  · rintro ⟨schema, wsId, entity, hschema, hws, hget⟩
    exact ⟨(name, schema, entity), ⟨hschema, wsId, hws, hget⟩, rfl⟩

theorem name_mem_step (hok : DeltaOk p (p.env defaultWs) delta)
    (hinsert : (delta.insertKey (p.env defaultWs)).isSome) {name : EntityName}
    (hname : delta.name p = some name) :
    name ∈ References.names
      (storedRows p (batchStore p (p.env defaultWs) lmdb (deltas ++ [delta]))) := by
  obtain ⟨key, hkey⟩ := Option.isSome_iff_exists.mp hinsert
  obtain ⟨schema, entity, wsId, hschema, hentity, hws, -, rfl⟩ := insertKey_eq hok hkey
  rw [name_of_schema hschema hentity] at hname
  obtain rfl := Option.some.inj hname
  refine mem_names_storedRows.mpr ⟨schema, wsId, entity, hschema, hws, ?_⟩
  rw [get_batchStore_append_singleton (head?_itemKey _ _ _), if_pos hkey, hentity]
  rfl

theorem names_step (hp : RegistryOk p) (hwell : WellKeyed p lmdb)
    (hok : DeltaOk p (p.env defaultWs) delta)
    (hinsert : (delta.insertKey (p.env defaultWs)).isSome) (deltas : List Delta) :
    References.names (storedRows p (batchStore p (p.env defaultWs) lmdb deltas))
      ⊆ References.names
          (storedRows p (batchStore p (p.env defaultWs) lmdb (deltas ++ [delta]))) := by
  intro name hmem
  obtain ⟨schema, wsId, entity, hschema, hws, hget⟩ := mem_names_storedRows.mp hmem
  have hhead := head?_itemKey name.1 wsId name.2
  by_cases hkey : delta.insertKey (p.env defaultWs) = some (itemKey name.1 wsId name.2)
  · obtain ⟨htype, entity', hentity, hpk, -⟩ := name_of_insertKey hp hok hschema hws hkey
    refine mem_names_storedRows.mpr ⟨schema, wsId, entity', hschema, hws, ?_⟩
    rw [get_batchStore_append_singleton hhead, if_pos hkey, hentity]
    rfl
  · by_cases hlookup : delta.lookupKey p (p.env defaultWs) = some (itemKey name.1 wsId name.2)
    -- the entity that is removed has the name of the new one
    · obtain ⟨key, hinserted⟩ := Option.isSome_iff_exists.mp hinsert
      obtain ⟨_, upserted, -, hentity, -⟩ := insertKey_some hinserted
      obtain ⟨schema', hschema', heq⟩ := lookupKey_some hlookup
      have hws' := (hok schema' hschema').1
      obtain ⟨htype, -, hpk⟩ := itemKey_inj (hp _ _ hschema).2 ((hp _ _ hschema').1 ▸
        (hp _ _ hschema').2) hws.1 hws'.1 hws.2 hws'.2 heq
      refine name_mem_step hok hinsert ?_
      have hprimary : delta.primaryKey = upserted.get := by simp [Delta.primaryKey, hentity]
      rw [name_of_schema hschema' hentity, ← hprimary, ← hpk, ← (hp _ _ hschema').1, ← htype]
    · have hremove := not_mem_committedKeys hp (hwell.lookup hp hok hinsert) hhead hlookup
      refine mem_names_storedRows.mpr ⟨schema, wsId, entity, hschema, hws, ?_⟩
      rw [get_batchStore_append_singleton hhead, if_neg hkey, if_neg hremove]
      exact hget

theorem names_batchStore (hp : RegistryOk p) (hwell : WellKeyed p lmdb)
    (hok : ∀ delta ∈ deltas, DeltaOk p (p.env defaultWs) delta)
    (hinsert : ∀ delta ∈ deltas, (delta.insertKey (p.env defaultWs)).isSome) :
    References.names (storedRows p lmdb)
        ⊆ References.names (storedRows p (batchStore p (p.env defaultWs) lmdb deltas))
      ∧ ∀ name ∈ deltas.filterMap (Delta.name p),
          name ∈ References.names (storedRows p (batchStore p (p.env defaultWs) lmdb deltas)) := by
  induction deltas using List.reverseRecOn with
  | nil => exact ⟨subset_rfl, fun name hname => by cases hname⟩
  | append_singleton deltas delta ih =>
    have hlast : delta ∈ deltas ++ [delta] := List.mem_append_right deltas List.mem_cons_self
    obtain ⟨hkeeps, hstores⟩ := ih (fun d hd => hok d (List.mem_append_left [delta] hd))
      (fun d hd => hinsert d (List.mem_append_left [delta] hd))
    have hstep := names_step hp hwell (hok delta hlast) (hinsert delta hlast) deltas
    refine ⟨hkeeps.trans hstep, fun name hname => ?_⟩
    rw [List.filterMap_append, List.mem_append] at hname
    rcases hname with hname | hname
    · exact hstep (hstores name hname)
    · obtain ⟨d, hd, hname⟩ := List.mem_filterMap.mp hname
      rw [List.mem_singleton.mp hd] at hname
      exact name_mem_step (hok delta hlast) (hinsert delta hlast) hname

theorem Lasting.mem {env : Env} (h : Lasting p env lmdb deltas delta) : delta ∈ deltas := by
  obtain ⟨earlier, later, rfl, -⟩ := h
  exact List.mem_append_right earlier List.mem_cons_self

/-- The rows after a list of upserts are those of before and the lasting
ones. -/
theorem update_batchStore (hp : RegistryOk p) (hwell : WellKeyed p lmdb)
    (hok : ∀ delta ∈ deltas, DeltaOk p (p.env defaultWs) delta)
    (hinsert : ∀ delta ∈ deltas, (delta.insertKey (p.env defaultWs)).isSome) :
    References.Update (storedRows p lmdb) (lastingRows p (p.env defaultWs) lmdb deltas)
      (storedRows p (batchStore p (p.env defaultWs) lmdb deltas)) where
  origin := by
    rintro ⟨name, schema, entity⟩ ⟨hschema, wsId, hws, hget⟩
    rcases get_batchStore_cases (head?_itemKey _ _ _) hget with
      hbefore | ⟨delta, hlasting, hkey, hentity⟩
    · exact .inl ⟨hschema, wsId, hws, hbefore⟩
    · obtain ⟨htype, entity', hentity', hpk, -⟩ :=
        name_of_insertKey hp (hok delta hlasting.mem) hschema hws hkey
      obtain rfl : entity = entity' := Option.some.inj (hentity.symm.trans hentity')
      have hdb : p.db delta.type = some schema := by rw [htype]; exact hschema
      refine .inr ⟨delta, hlasting, hdb, hentity, ?_⟩
      rw [name_of_schema hdb hentity, htype, hpk]
  stays := by
    rintro ⟨name, schema, entity⟩ ⟨delta, hlasting, hschema, hentity, hname⟩
    simp only at hschema hentity hname
    obtain ⟨key, hkey⟩ := Option.isSome_iff_exists.mp (hinsert delta hlasting.mem)
    have hget := get_batchStore_of_lasting hlasting hkey
    obtain ⟨schema', entity', wsId, hschema', hentity', hws, -, rfl⟩ :=
      insertKey_eq (hok delta hlasting.mem) hkey
    rw [name_of_schema hschema hentity] at hname
    obtain rfl := Option.some.inj hname
    obtain rfl : schema = schema' := Option.some.inj (hschema.symm.trans hschema')
    obtain rfl : entity = entity' := Option.some.inj (hentity.symm.trans hentity')
    refine ⟨hschema, wsId, hws, ?_⟩
    rw [hget, hentity]
    rfl
  keeps := (names_batchStore hp hwell hok hinsert).1

end Store

/-! ## What is accepted -/

section Accepted

variable {p : Params} {defaultWs : Text} {lmdb : Lmdb} {deltas : List Delta} {delta : Delta}

theorem validateDelta_name {checked : Bool × Delta × Option Text}
    (h : validateDelta p delta = .ok checked) :
    checked.2.2 = (delta.name p).map Prod.snd := by
  unfold validateDelta at h
  unfold Delta.name
  cases hentity : delta.entity with
  | none =>
    simp only [hentity] at h
    rw [← Except.ok.inj h]
    rfl
  | some entity =>
    simp only [hentity] at h
    obtain ⟨schema, hschema, h⟩ := MapM.bind_ok h
    rw [← Except.ok.inj h]
    simp [orRaise_ok hschema]

theorem referencesFound_of_validateDeltas {validated : List Delta} {isFullSync : Bool}
    (h : validateDeltas p (p.env defaultWs) lmdb deltas isFullSync = .ok validated) :
    ∀ delta ∈ deltas.map (Delta.prepared p),
      referencesFound p (p.env defaultWs) lmdb (deltasMap p deltas) isFullSync delta = .ok true := by
  have hvalidated := validateDeltas_ok h
  obtain ⟨checked, hchecked, h⟩ := MapM.bind_ok h
  cases hvalid : checked.all (·.1) with
  | false => simp [hvalid] at h
  | true =>
    simp only [hvalid, if_true] at h
    obtain ⟨found, hfound, h⟩ := MapM.bind_ok h
    have hmap : checked.filterMap (·.2.2) = deltasMap p deltas := by
      have hnames := MapM.map_eq_map_of_ok (fun _ _ => validateDelta_name) hchecked
      have hid := congrArg (List.filterMap id) hnames
      simpa [deltasMap, List.filterMap_map, Function.comp_def] using hid
    split at h
    · rename_i hall
      rw [hmap, mapM_validateDelta_ok hchecked hvalid] at hfound
      intro delta hdelta
      obtain ⟨answer, hanswer, hok⟩ := MapM.ok_of_mem hfound hdelta
      have htrue : answer = true := by simpa using List.all_eq_true.mp hall answer hanswer
      rw [hok, htrue]
    · cases h

theorem wsPart_workspaceId (hdefault : WsPart defaultWs) {wsId : Text} (hws : WsPart wsId)
    (schema : Schema) : WsPart (workspaceId (p.env defaultWs) schema (.id wsId)) := by
  unfold workspaceId
  split
  · simp only
    split
    · exact hdefault
    · exact hws
  · exact hdefault

/-- A reference that is found is among the keys of the deltas, or stored. -/
theorem found_of_referenceFound (hp : RegistryOk p) (hdefault : WsPart defaultWs)
    {keys : List Text} {isFullSync : Bool} {wsId : Text} (hws : WsPart wsId) {item : Entity}
    {field : Field} {reference : Text} {key : List (Text × Text)}
    (hreference : field.reference = some reference)
    (hvalue : item.get field.name = some (.foreign key))
    (h : referenceFound p (p.env defaultWs) lmdb keys isFullSync wsId item field = .ok true) :
    foreignPk p reference key ∈ keys
      ∨ isFullSync = false
          ∧ (reference, foreignPk p reference key) ∈ References.names (storedRows p lmdb) := by
  simp only [referenceFound, hreference, hvalue] at h
  obtain ⟨schema, hschema, h⟩ := MapM.bind_ok h
  have hschema := orRaise_ok hschema
  have hpk : foreignPk p reference key = pkString schema (foreignGet key) := by
    simp [foreignPk, hschema]
  rw [← hpk] at h
  by_cases hmem : foreignPk p reference key ∈ keys
  · exact .inl hmem
  · cases isFullSync with
    | true => simp [hmem] at h
    | false =>
      simp only [hmem, if_false, Bool.false_eq_true] at h
      cases hselect : daoSelect p (p.env defaultWs) lmdb schema (foreignGet key) (.id wsId) with
      | error failure => cases failure <;> simp [hselect] at h
      | ok found =>
        cases found with
        | none => simp [hselect] at h
        | some row =>
          have hpart := wsPart_workspaceId (p := p) hdefault hws schema
          rcases daoSelect_ok hpart.2 hselect with ⟨-, hnone⟩ | ⟨entity, hget, -⟩
          · cases hnone
          · rw [(hp _ _ hschema).1, ← hpk] at hget
            exact .inr ⟨rfl, mem_names_storedRows.mpr
              ⟨schema, _, entity, hschema, hpart, hget⟩⟩

theorem mem_foreignRefs {schema : Schema} {entity : Entity} {name : EntityName}
    (h : name ∈ foreignRefs p schema entity) :
    ∃ field ∈ schema.fields, ∃ reference key, field.reference = some reference
      ∧ entity.get field.name = some (.foreign key)
      ∧ name = (reference, foreignPk p reference key) := by
  obtain ⟨field, hfield, h⟩ := List.mem_filterMap.mp h
  split at h
  · rename_i reference key hreference hvalue
    exact ⟨field, hfield, reference, key, hreference, hvalue, (Option.some.inj h).symm⟩
  · cases h

/-- What the references of accepted deltas refer to is among the keys of the
deltas, or stored. -/
theorem found_of_validateDeltas (hp : RegistryOk p) {validated : List Delta} {isFullSync : Bool}
    (h : validateDeltas p (p.env defaultWs) lmdb deltas isFullSync = .ok validated)
    (hdelta : delta ∈ deltas.map (Delta.prepared p)) (hok : DeltaOk p (p.env defaultWs) delta)
    {schema : Schema} {entity : Entity} (hschema : p.db delta.type = some schema)
    (hentity : delta.entity = some entity) {name : EntityName}
    (hname : name ∈ foreignRefs p schema entity) :
    name.2 ∈ deltasMap p deltas
      ∨ isFullSync = false ∧ name ∈ References.names (storedRows p lmdb) := by
  have hfound := referencesFound_of_validateDeltas h delta hdelta
  simp only [referencesFound, hentity] at hfound
  obtain ⟨schema', hschema', hfound⟩ := MapM.bind_ok hfound
  obtain rfl : schema = schema' := Option.some.inj (hschema.symm.trans (orRaise_ok hschema'))
  obtain ⟨found, hmap, hall⟩ := MapM.bind_ok hfound
  obtain ⟨field, hfield, reference, key, hreference, hvalue, rfl⟩ := mem_foreignRefs hname
  obtain ⟨answer, hanswer, hfieldFound⟩ := MapM.ok_of_mem hmap hfield
  have htrue : answer = true := by
    have hall : found.all id = true := Except.ok.inj hall
    simpa using List.all_eq_true.mp hall answer hanswer
  rw [htrue] at hfieldFound
  obtain ⟨hdefault, hws⟩ := hok schema hschema
  have hoptions : delta.options = .absent := by simp [Delta.options, hentity]
  rw [hoptions, workspaceId_absent] at hdefault
  have hws := hws entity hentity
  rw [workspaceId_absent] at hws
  exact found_of_referenceFound hp hdefault hws hreference hvalue hfieldFound

end Accepted

/-! ## Commits -/

/-- The contents a transaction starts from. -/
def Node.base (node : Node) (isFullSync : Bool) : Lmdb := if isFullSync then ∅ else node.lmdb

/-- A sync commits these deltas; a full one may fail to notify the other
workers afterwards. -/
structure Commits (p : Params) (node : Node) (deltas : List Delta) (isFullSync : Bool)
    (input : SyncInput) : Prop where
  ready : input.rpcReady = true
  reply : input.reply = some (some { deltas := some deltas, isFullSync := isFullSync })
  nonempty : deltas ≠ []
  preprocessed : ∃ changed, preprocessDeltas node.defaultWorkspace deltas = .ok changed
  accepted : ∃ ops, syncOps p (p.env (effectiveDefault node.defaultWorkspace deltas)) node.lmdb
    deltas isFullSync = .ok ops
  committed : input.commitError = none

section Commits

variable {p : Params} {node : Node} {deltas : List Delta} {isFullSync : Bool} {input : SyncInput}
  {defaultWs : Text}

theorem applyDeltas_lmdb {changed : Bool} {ops : Ops}
    (hops : syncOps p (p.env node.defaultWorkspace) node.lmdb deltas isFullSync = .ok ops)
    (hcommit : input.commitError = none) :
    (applyDeltas p node deltas changed isFullSync input).2.lmdb
      = commit node.lmdb isFullSync
          (ops ++ endOps deltas node.defaultWorkspace (changed || isFullSync)) := by
  simp only [applyDeltas, hops, hcommit]
  split <;> rfl

theorem Commits.lmdb (h : Commits p node deltas isFullSync input) :
    ∃ ops record, syncOps p (p.env (effectiveDefault node.defaultWorkspace deltas)) node.lmdb
        deltas isFullSync = .ok ops
      ∧ (doSync p node input).2.lmdb = (node.base isFullSync).write
          (ops ++ endOps deltas (effectiveDefault node.defaultWorkspace deltas) record) := by
  obtain ⟨changed, hchanged⟩ := h.preprocessed
  obtain ⟨ops, hops⟩ := h.accepted
  have hsync : doSync p node input = syncDeltas p node deltas isFullSync input := by
    unfold doSync
    simp only [h.ready, h.reply, if_true]
    cases deltas with
    | nil => exact absurd rfl h.nonempty
    | cons delta deltas => rfl
  rw [hsync]
  unfold syncDeltas
  cases changed with
  | none =>
    simp only [effectiveDefault, hchanged] at hops ⊢
    exact ⟨ops, _, hops, applyDeltas_lmdb hops h.committed⟩
  | some id =>
    simp only [effectiveDefault, hchanged] at hops ⊢
    have hlmdb := @applyDeltas_lmdb p { node with defaultWorkspace := id } deltas isFullSync
      input true ops hops h.committed
    exact ⟨ops, _, hops, hlmdb⟩

theorem deltaOps_full {env : Env} {lmdb : Lmdb} {delta : Delta} {ops : Ops}
    (hupsert : delta.entity.isSome) (h : deltaOps p env lmdb true delta = .ok ops) :
    ops = OrderedStore.stepOps (delta.committedKeys p env ∅, delta.rows env) := by
  obtain ⟨entity, hentity⟩ := Option.isSome_iff_exists.mp hupsert
  have hremoves : delta.committedKeys p env ∅ = [] := by
    unfold Delta.committedKeys removedKeysAt
    cases delta.lookupKey p env <;> rfl
  simp only [deltaOps, hentity] at h
  obtain ⟨_, _, deletes, inserts, -, -, hdeletes, hinserts, rfl⟩ := lmdbUpdate_ok h
  obtain rfl : [] = deletes := Except.ok.inj hdeletes
  rw [insertEntityForTxn_some hentity hinserts, hremoves]
  rfl

theorem isSome_prepared (hupserts : ∀ delta ∈ deltas, delta.entity.isSome) :
    ∀ delta ∈ deltas.map (Delta.prepared p), delta.entity.isSome := by
  intro delta hdelta
  obtain ⟨raw, hraw, rfl⟩ := List.mem_map.mp hdelta
  have hupsert := hupserts raw hraw
  unfold Delta.prepared
  split
  · rfl
  · exact hupsert

theorem syncOps_upserts {ops : Ops} (hupserts : ∀ delta ∈ deltas, delta.entity.isSome)
    (hok : ∀ delta ∈ deltas, DeltaOk p (p.env defaultWs) (delta.prepared p))
    (h : syncOps p (p.env defaultWs) node.lmdb deltas isFullSync = .ok ops) :
    (node.base isFullSync).write ops
      = batchStore p (p.env defaultWs) (node.base isFullSync)
          (deltas.map (Delta.prepared p)) := by
  cases isFullSync with
  | false => rw [syncOps_ok hok h, batchStore, Node.base, if_neg Bool.false_ne_true]
  | true =>
    obtain ⟨lists, hlists, rfl⟩ := syncOps_mapM h
    rw [mapM_deltaOps_steps
      (fun delta hdelta ops => deltaOps_full (isSome_prepared hupserts delta hdelta)) hlists,
      batchStore, Node.base, if_pos rfl]

theorem isSome_insertKey {ops : Ops} (hupserts : ∀ delta ∈ deltas, delta.entity.isSome)
    (h : syncOps p (p.env defaultWs) node.lmdb deltas isFullSync = .ok ops) :
    ∀ delta ∈ deltas.map (Delta.prepared p),
      (delta.insertKey (p.env defaultWs)).isSome := by
  intro delta hdelta
  obtain ⟨entity, hentity⟩ := Option.isSome_iff_exists.mp (isSome_prepared hupserts delta hdelta)
  obtain ⟨lists, hlists, -⟩ := syncOps_mapM h
  obtain ⟨list, -, hops⟩ := MapM.ok_of_mem hlists hdelta
  simp only [deltaOps, hentity] at hops
  obtain ⟨_, _, _, inserts, -, -, -, hinserts, -⟩ := lmdbUpdate_ok hops
  obtain ⟨keys, hkeys, -⟩ := Option.bind_eq_some_iff.mp hinserts
  simp [Delta.insertKey, hentity, hkeys]

theorem Commits.sameEntities (h : Commits p node deltas isFullSync input)
    (hdefault : effectiveDefault node.defaultWorkspace deltas = defaultWs)
    (hupserts : ∀ delta ∈ deltas, delta.entity.isSome)
    (hok : ∀ delta ∈ deltas, DeltaOk p (p.env defaultWs) (delta.prepared p)) :
    SameEntities (doSync p node input).2.lmdb
      (batchStore p (p.env defaultWs) (node.base isFullSync) (deltas.map (Delta.prepared p))) := by
  obtain ⟨ops, record, hops, hlmdb⟩ := h.lmdb
  rw [hdefault] at hops hlmdb
  intro key hkey
  rw [hlmdb, OrderedStore.write_append, get_endOps_entityKey hkey,
    syncOps_upserts hupserts hok hops]

end Commits

theorem wellKeyed_base {p : Params} {node : Node} (h : WellKeyed p node.lmdb)
    (isFullSync : Bool) : WellKeyed p (node.base isFullSync) := by
  cases isFullSync with
  | false => exact h
  | true =>
    intro type schema wsId pk entity _ _ hget
    cases hget

theorem referencesClosed_base {p : Params} {node : Node} (h : ReferencesClosed p node.lmdb)
    (isFullSync : Bool) : ReferencesClosed p (node.base isFullSync) := by
  cases isFullSync with
  | false => exact h
  | true =>
    rintro row ⟨-, wsId, -, hget⟩
    cases hget

/-- A sync that commits upserts keeps references closed exactly when the
foreign keys found in the map of the deltas are keys of their types. -/
theorem references_closed_iff (p : Params) (hp : RegistryOk p) (node : Node) (deltas : List Delta)
    (isFullSync : Bool) (input : SyncInput) (h : Commits p node deltas isFullSync input)
    (hupserts : ∀ delta ∈ deltas, delta.entity.isSome)
    (hok : ∀ delta ∈ deltas, DeltaOk p
      (p.env (effectiveDefault node.defaultWorkspace deltas)) (delta.prepared p))
    (hwell : WellKeyed p node.lmdb) (hclosed : ReferencesClosed p node.lmdb) :
    ReferencesClosed p (doSync p node input).2.lmdb
      ↔ FoundByType p (p.env (effectiveDefault node.defaultWorkspace deltas))
          (node.base isFullSync) deltas := by
  obtain ⟨ops, -, hops, -⟩ := h.lmdb
  have hprepared : ∀ delta ∈ deltas.map (Delta.prepared p),
      DeltaOk p (p.env (effectiveDefault node.defaultWorkspace deltas)) delta := by
    intro delta hdelta
    obtain ⟨raw, hraw, rfl⟩ := List.mem_map.mp hdelta
    exact hok raw hraw
  have hinsert := isSome_insertKey hupserts hops
  have hupdate := update_batchStore hp (wellKeyed_base hwell isFullSync) hprepared hinsert
  have hstores := (names_batchStore hp (wellKeyed_base hwell isFullSync) hprepared hinsert).2
  rw [ReferencesClosed, (h.sameEntities rfl hupserts hok).storedRows,
    hupdate.closed_iff (referencesClosed_base hclosed isFullSync)]
  constructor
  · intro hfound row hrow name hname _
    rcases hfound row hrow name hname with hbefore | ⟨fresh, ⟨delta, hlasting, -, -, hdelta⟩, rfl⟩
    · exact .inr hbefore
    · exact .inl (List.mem_filterMap.mpr ⟨delta, hlasting.mem, hdelta⟩)
  · rintro hfound row hrow name hname
    obtain ⟨delta, hlasting, hschema, hentity, -⟩ := id hrow
    obtain ⟨validated, hvalidated, -⟩ := MapM.bind_ok hops
    have hdelta := hprepared delta hlasting.mem
    rcases found_of_validateDeltas hp hvalidated hlasting.mem hdelta hschema hentity hname with
      hmap | ⟨rfl, hstored⟩
    · rcases hfound row hrow name hname hmap with hupserted | hstored
      · exact hupdate.mem_names_iff.mp (hstores name hupserted)
      · exact .inl hstored
    · exact .inl hstored

/-! ## Consumers and credentials -/

theorem foundByType_of_names {p : Params} {env : Env} {lmdb : Lmdb} {deltas : List Delta}
    (h : ∀ delta ∈ deltas.map (Delta.prepared p), ∀ schema ∈ p.db delta.type,
      ∀ entity ∈ delta.entity, ∀ name ∈ foreignRefs p schema entity,
        name ∈ (deltas.map (Delta.prepared p)).filterMap (Delta.name p)) :
    FoundByType p env lmdb deltas := by
  rintro row ⟨delta, hlasting, hschema, hentity, -⟩ name hname -
  exact .inl (h delta hlasting.mem _ hschema _ hentity name hname)

theorem not_mem_names_storedRows {p : Params} {lmdb : Lmdb} {name : EntityName}
    (h : ∀ entry ∈ lmdb.entries,
      ¬ (ofText "I" ++ bar :: name.1 ++ [bar]) <+: entry.1) :
    name ∉ References.names (storedRows p lmdb) := by
  intro hmem
  obtain ⟨schema, wsId, entity, -, hws, hget⟩ := mem_names_storedRows.mp hmem
  refine h _ (OrderedStore.get_eq_some_iff.mp hget) ?_
  rw [itemKey_eq hws.2]
  exact ⟨wsId ++ bar :: name.2, by simp⟩

def credentialParams : Params where
  db := fun name =>
    [workspaces, consumers, keyauthCredentials].find? fun schema => schema.name = name
  sha256Hex := fun value =>
    (((ofText "alice",
      ofText "2bd806c97f0e00af1a1fc3328fa763a9269723c8db8fac4f93af71db186d6e90")
        :: digests).lookup value).getD []
  processAutoFields := fun _ entity => entity
  validate := fun _ _ => true
  validatePrimaryKey := fun _ pk => (pk (ofText "id")).isSome
  transform := fun _ entity => .ok entity
  now := 0

def upsert (schema : Schema) (entity : Entity) : Delta where
  type := schema.name
  entity := some entity
  pk := []
  wsId := .id defaultWs
  version := ofText "v02_0000000000000000000000000002"

/-- A consumer and a credential of it. -/
def consumerWithCredential : List Delta :=
  [upsert consumers
      { fields := [(ofText "id", .text consumerId), (ofText "username", .text (ofText "alice"))],
        wsId := some defaultWs, ttl := none },
    upsert keyauthCredentials
      (credential "1d5cb1a1-53c9-4d4b-9d8f-0c9b5c0c2a01" "key-1" none)]

/-- A credential with the id of its consumer, without the consumer. -/
def credentialNamedAsConsumer : List Delta :=
  [upsert keyauthCredentials
    (credential "4f1a4fe1-9b6e-4d4a-8b2e-93e0c1d1f5aa" "key-1" none)]

theorem registryOk_credentialParams : RegistryOk credentialParams :=
  @registryOk_of_find? credentialParams [workspaces, consumers, keyauthCredentials] rfl
    (by decide +kernel)

theorem deltaOk_of_defaultWs {p : Params} {delta : Delta} (hoptions : delta.options = .absent)
    (hentity : ∀ entity ∈ delta.entity, entity.wsId = some defaultWs) :
    DeltaOk p (p.env defaultWs) delta := by
  have hws : WsPart defaultWs := by decide +kernel
  intro schema _
  rw [hoptions, workspaceId_absent]
  refine ⟨hws, fun entity h => ?_⟩
  rw [hentity entity h]
  exact hws

theorem wellKeyed_recordedNode (p : Params) : WellKeyed p recordedNode.lmdb := by
  intro type schema wsId pk entity _ _ hget
  rw [get_itemKey_recordedNode] at hget
  cases hget

theorem referencesClosed_recordedNode (p : Params) : ReferencesClosed p recordedNode.lmdb := by
  rintro row ⟨-, wsId, -, hget⟩
  rw [get_itemKey_recordedNode] at hget
  cases hget

/-- A credential that comes with its consumer leaves the references
closed. -/
theorem consumer_with_credential_closed :
    ReferencesClosed credentialParams
      (doSync credentialParams recordedNode (incremental consumerWithCredential)).2.lmdb := by
  have hdefault : effectiveDefault recordedNode.defaultWorkspace consumerWithCredential
      = defaultWs := by decide +kernel
  have hops : (syncOps credentialParams (credentialParams.env defaultWs) recordedNode.lmdb
      consumerWithCredential false).isOk := by decide +kernel
  refine (references_closed_iff credentialParams registryOk_credentialParams recordedNode
    consumerWithCredential false (incremental consumerWithCredential)
    ⟨rfl, rfl, by decide, ⟨none, by decide +kernel⟩, ?_, rfl⟩ (by decide) ?_
    (wellKeyed_recordedNode _) (referencesClosed_recordedNode _)).mpr
      (foundByType_of_names (by decide +kernel))
  · rw [hdefault]
    cases hresult : syncOps credentialParams (credentialParams.env defaultWs) recordedNode.lmdb
        consumerWithCredential false with
    | error failure => simp [hresult, Except.isOk, Except.toBool] at hops
    | ok ops => exact ⟨ops, rfl⟩
  · rw [hdefault]
    intro delta hdelta
    simp only [consumerWithCredential, List.mem_cons, List.not_mem_nil, or_false] at hdelta
    obtain rfl | rfl := hdelta
    · exact deltaOk_of_defaultWs (by decide +kernel) (by decide +kernel)
    · exact deltaOk_of_defaultWs (by decide +kernel) (by decide +kernel)

/-- A credential that has the id of its consumer is stored without it. -/
theorem credential_without_consumer :
    WellKeyed credentialParams recordedNode.lmdb
    ∧ ReferencesClosed credentialParams recordedNode.lmdb
    ∧ (doSync credentialParams recordedNode (incremental credentialNamedAsConsumer)).1 = .ok
    ∧ ¬ ReferencesClosed credentialParams
        (doSync credentialParams recordedNode
          (incremental credentialNamedAsConsumer)).2.lmdb := by
  refine ⟨wellKeyed_recordedNode _, referencesClosed_recordedNode _, by decide +kernel,
    fun hclosed => ?_⟩
  have hstored : ((keyauthCredentials.name, consumerId), keyauthCredentials,
      credential "4f1a4fe1-9b6e-4d4a-8b2e-93e0c1d1f5aa" "key-1" none)
        ∈ storedRows credentialParams (doSync credentialParams recordedNode
          (incremental credentialNamedAsConsumer)).2.lmdb :=
    ⟨by decide +kernel, defaultWs, by decide +kernel, by decide +kernel⟩
  have hreference : (consumers.name, consumerId) ∈ foreignRefs credentialParams keyauthCredentials
      (credential "4f1a4fe1-9b6e-4d4a-8b2e-93e0c1d1f5aa" "key-1" none) := by decide +kernel
  exact not_mem_names_storedRows (by decide +kernel) (hclosed _ hstored hreference)

end KongGateway.Kong.Clustering.Apply

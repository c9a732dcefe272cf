import KongGateway.Kong.Clustering.Sync.Rollback

/-!
# Batch — deltas together and one by one

An incremental sync looks the old entity of each delta up in the committed
contents, although earlier deltas of the list may have changed it. The
indexes it removes are those of the committed entity, and an entity that
the list itself creates is not found.

The contents after a list equal those after its deltas one by one exactly
when, for every key, the removals by committed old entities and the
removals by old entities as the earlier deltas leave them have the same
effect.
-/

namespace KongGateway.Kong.Clustering.Apply

open Bytes Db.Declarative Db.Off

/-! ## What a delta does -/

/-- A delta as `validate_deltas` leaves it. -/
def Delta.prepared (p : Params) (delta : Delta) : Delta :=
  match delta.entity, p.db delta.type with
  | some entity, some schema =>
    { delta with
      entity := some { p.processAutoFields schema entity with wsId := entity.wsId } }
  | _, _ => delta

/-- The primary key and the workspace that the old entity is selected
with. -/
def Delta.primaryKey (delta : Delta) : Text → Option FieldValue :=
  match delta.entity with
  | some entity => entity.get
  | none => foreignGet delta.pk

def Delta.options (delta : Delta) : WorkspaceOption :=
  match delta.entity with
  | some _ => .absent
  | none => delta.wsId

/-- The item key that the old entity is looked up under. -/
def Delta.lookupKey (p : Params) (env : Env) (delta : Delta) : Option Text :=
  (p.db delta.type).map fun schema =>
    itemKey schema.name (workspaceId env schema delta.options) (pkString schema delta.primaryKey)

/-- The item key that the new entity is stored under. -/
def Delta.insertKey (env : Env) (delta : Delta) : Option Text :=
  delta.entity.bind fun entity => (entityKeys env delta.type entity .absent).map Prod.fst

/-- The rows that a delta sets. -/
def Delta.rows (env : Env) (delta : Delta) : List (Text × Value) :=
  match delta.entity with
  | none => []
  | some entity =>
    match entityKeys env delta.type entity .absent with
    | none => []
    | some (itmKey, idxKeys) =>
      (itmKey, .item entity) :: idxKeys.map fun key => (key, .text itmKey)

/-- The keys that are removed for an old entity, if it is selected. -/
def removedKeys (p : Params) (env : Env) (type : Text) (entity : Entity) : List Text :=
  match p.db type with
  | none => []
  | some schema =>
    match restore schema p.now entity with
    | none => []
    | some row =>
      match entityKeys env type (rowToEntity env schema row) .absent with
      | none => []
      | some (itmKey, idxKeys) => itmKey :: idxKeys

def removedKeysAt (p : Params) (env : Env) (lmdb : Lmdb) (type key : Text) : List Text :=
  match lmdb.get key with
  | some (.item entity) => removedKeys p env type entity
  | _ => []

/-- The keys that a delta removes in a sync of these contents. -/
def Delta.committedKeys (p : Params) (env : Env) (lmdb : Lmdb) (delta : Delta) : List Text :=
  match delta.lookupKey p env with
  | none => []
  | some key => removedKeysAt p env lmdb delta.type key

/-- The keys that a delta removes when the earlier deltas have been
applied: the last of them that stores or removes the entity counts. -/
def Delta.currentKeys (p : Params) (env : Env) (lmdb : Lmdb) (earlier : List Delta)
    (delta : Delta) : List Text :=
  match delta.lookupKey p env with
  | none => []
  | some key =>
    earlier.foldl
      (fun keys before =>
        if before.insertKey env = some key then
          (before.entity.map (removedKeys p env before.type)).getD []
        else if before.lookupKey p env = some key then []
        else keys)
      (removedKeysAt p env lmdb delta.type key)

/-! ## Two ways to apply a list -/

/-- The steps of one sync. -/
def batchSteps (p : Params) (env : Env) (lmdb : Lmdb) (deltas : List Delta) :
    List (OrderedStore.Step Text Value) :=
  deltas.map fun delta => (delta.committedKeys p env lmdb, delta.rows env)

/-- The steps of syncs one by one. -/
def sequenceSteps (p : Params) (env : Env) (lmdb : Lmdb) :
    (earlier deltas : List Delta) → List (OrderedStore.Step Text Value)
  | _, [] => []
  | earlier, delta :: deltas =>
    (delta.currentKeys p env lmdb earlier, delta.rows env)
      :: sequenceSteps p env lmdb (earlier ++ [delta]) deltas

/-- Both ways agree whether an item key or index key that is stored or set
is removed after it has been set for the last time. -/
def SameRemovals (p : Params) (env : Env) (lmdb : Lmdb) (deltas : List Delta) : Prop :=
  ∀ key, EntityKey key →
    ((lmdb.get key).isSome ∨ ∃ delta ∈ deltas, ∃ row ∈ delta.rows env, row.1 = key) →
    OrderedStore.removed key (batchSteps p env lmdb deltas)
      = OrderedStore.removed key (sequenceSteps p env lmdb [] deltas)

/-- The node after syncs of single deltas. -/
def syncEach (p : Params) (node : Node) (deltas : List Delta) : Node :=
  deltas.foldl (fun node delta => (doSync p node (incremental [delta])).2) node

/-- Each of these syncs succeeds. -/
def EachOk (p : Params) : Node → List Delta → Prop
  | _, [] => True
  | node, delta :: deltas =>
    (doSync p node (incremental [delta])).1 = .ok
      ∧ EachOk p (doSync p node (incremental [delta])).2 deltas

/-! ## What is assumed of names and contents -/

/-- A workspace id as a part of keys. -/
def WsPart (wsId : Text) : Prop := Plain wsId ∧ wsId ≠ globalWorkspaceTag

instance (wsId : Text) : Decidable (WsPart wsId) :=
  inferInstanceAs (Decidable (Plain wsId ∧ wsId ≠ globalWorkspaceTag))

/-- Types are registered under their names. -/
def RegistryOk (p : Params) : Prop :=
  ∀ name schema, p.db name = some schema → schema.name = name ∧ Plain name

/-- A delta names its workspace. -/
def DeltaOk (p : Params) (env : Env) (delta : Delta) : Prop :=
  ∀ schema, p.db delta.type = some schema →
    WsPart (workspaceId env schema delta.options)
      ∧ ∀ entity, delta.entity = some entity →
          WsPart (entity.wsId.getD (workspaceId env schema .absent))

/-- The key an entity is stored under. -/
def ownKey (env : Env) (schema : Schema) (entity : Entity) : Text :=
  itemKey schema.name (entity.wsId.getD (workspaceId env schema .absent))
    (pkString schema entity.get)

/-- Entities lie under their own keys. -/
def OwnKeys (p : Params) (env : Env) (lmdb : Lmdb) : Prop :=
  ∀ schema wsId pk entity, p.db schema.name = some schema → WsPart wsId →
    lmdb.get (itemKey schema.name wsId pk) = some (.item entity) →
    ownKey env schema entity = itemKey schema.name wsId pk

/-- The entity that a delta finds lies under its own key. -/
def Delta.OwnLookup (p : Params) (env : Env) (lmdb : Lmdb) (delta : Delta) : Prop :=
  ∀ schema entity, p.db delta.type = some schema →
    lmdb.get (itemKey schema.name (workspaceId env schema delta.options)
      (pkString schema delta.primaryKey)) = some (.item entity) →
    ownKey env schema entity = itemKey schema.name (workspaceId env schema delta.options)
      (pkString schema delta.primaryKey)

/-! ## The steps of a sync -/

section Steps

variable {p : Params} {env : Env} {lmdb : Lmdb} {delta : Delta}

theorem validateDelta_ok {checked : Bool × Delta × Option Text}
    (h : validateDelta p delta = .ok checked) (hvalid : checked.1 = true) :
    checked.2.1 = delta.prepared p := by
  unfold validateDelta at h
  unfold Delta.prepared
  cases hentity : delta.entity with
  | none =>
    simp only [hentity] at h
    rw [← Except.ok.inj h]
  | some entity =>
    simp only [hentity] at h
    obtain ⟨schema, hschema, h⟩ := MapM.bind_ok h
    obtain rfl := Except.ok.inj h
    simp only [Bool.and_eq_true] at hvalid
    simp only [orRaise_ok hschema, hvalid.2, if_true]

theorem mapM_validateDelta_ok {deltas : List Delta} {checked : List (Bool × Delta × Option Text)}
    (h : deltas.mapM (validateDelta p) = .ok checked) (hvalid : checked.all (·.1) = true) :
    checked.map (·.2.1) = deltas.map (Delta.prepared p) := by
  induction deltas generalizing checked with
  | nil =>
    obtain rfl : [] = checked := by simpa [pure, Except.pure] using h
    rfl
  | cons delta deltas ih =>
    obtain ⟨first, rest, hfirst, hrest, rfl⟩ := MapM.cons_ok h
    simp only [List.all_cons, Bool.and_eq_true] at hvalid
    rw [List.map_cons, List.map_cons, validateDelta_ok hfirst hvalid.1, ih hrest hvalid.2]

theorem validateDeltas_ok {deltas validated : List Delta} {isFullSync : Bool}
    (h : validateDeltas p env lmdb deltas isFullSync = .ok validated) :
    validated = deltas.map (Delta.prepared p) := by
  obtain ⟨checked, hchecked, h⟩ := MapM.bind_ok h
  cases hvalid : checked.all (·.1) with
  | false => simp [hvalid] at h
  | true =>
    simp only [hvalid, if_true] at h
    obtain ⟨found, -, h⟩ := MapM.bind_ok h
    split at h
    · rw [← Except.ok.inj h, mapM_validateDelta_ok hchecked hvalid]
    · cases h

theorem deleteEntityForTxn_some {type : Text} {entity : Entity} {ops : Ops}
    (h : deleteEntityForTxn env type entity .absent = some ops) :
    ∃ keys, entityKeys env type entity .absent = some keys
      ∧ ops = (keys.1 :: keys.2).map fun key => (key, none) := by
  simp only [deleteEntityForTxn, setEntityForTxn, Option.bind_eq_bind, Option.bind_eq_some_iff,
    if_true, Option.some.injEq] at h
  obtain ⟨keys, hkeys, rfl⟩ := h
  exact ⟨keys, hkeys, rfl⟩

theorem insertEntityForTxn_some {entity : Entity} {ops : Ops} (hentity : delta.entity = some entity)
    (h : insertEntityForTxn env delta.type entity .absent = some ops) :
    ops = (delta.rows env).map fun row => (row.1, some row.2) := by
  simp only [insertEntityForTxn, setEntityForTxn, Option.bind_eq_bind, Option.bind_eq_some_iff,
    Bool.false_eq_true, if_false, Option.some.injEq] at h
  obtain ⟨keys, hkeys, rfl⟩ := h
  simp [Delta.rows, hentity, hkeys]

theorem daoSelect_ok {schema : Schema} {pk : Text → Option FieldValue} {options : WorkspaceOption}
    {old : Option Entity} (hws : workspaceId env schema options ≠ globalWorkspaceTag)
    (h : daoSelect p env lmdb schema pk options = .ok old) :
    (lmdb.get (itemKey schema.name (workspaceId env schema options) (pkString schema pk)) = none
        ∧ old = none)
      ∨ ∃ entity, lmdb.get (itemKey schema.name (workspaceId env schema options)
            (pkString schema pk)) = some (.item entity)
          ∧ old = (restore schema p.now entity).map (rowToEntity env schema) := by
  unfold daoSelect at h
  split at h
  · rw [select, if_neg hws, selectByKey] at h
    cases hget : lmdb.get (itemKey schema.name (workspaceId env schema options)
        (pkString schema pk)) with
    | none =>
      refine .inl ⟨rfl, ?_⟩
      simpa [hget, constructEntity, unmarshall, Except.map, eq_comm] using h
    | some value =>
      cases value with
      | text s => simp [hget, constructEntity, unmarshall, Except.map] at h
      | item entity =>
        refine .inr ⟨entity, rfl, ?_⟩
        simpa [hget, constructEntity, unmarshall, Except.map, eq_comm] using h
  · cases h

theorem deleteOld_ok {schema : Schema} (hschema : p.db delta.type = some schema)
    (hok : DeltaOk p env delta) {old : Option Entity} {ops : Ops}
    (hold : daoSelect p env lmdb schema delta.primaryKey delta.options = .ok old)
    (h : deleteOld env delta.type old = .ok ops) :
    ops = (delta.committedKeys p env lmdb).map fun key => (key, none) := by
  have hkeys : delta.committedKeys p env lmdb
      = removedKeysAt p env lmdb delta.type (itemKey schema.name
          (workspaceId env schema delta.options) (pkString schema delta.primaryKey)) := by
    simp only [Delta.committedKeys, Delta.lookupKey, hschema, Option.map_some]
  rw [hkeys, removedKeysAt]
  rcases daoSelect_ok (hok schema hschema).1.2 hold with ⟨hget, rfl⟩ | ⟨entity, hget, rfl⟩
  · rw [hget]
    exact (Except.ok.inj h).symm
  · simp only [hget, removedKeys, hschema]
    cases hrestore : restore schema p.now entity with
    | none =>
      rw [hrestore] at h
      exact (Except.ok.inj h).symm
    | some row =>
      rw [hrestore] at h
      obtain ⟨keys, hkeys, rfl⟩ := deleteEntityForTxn_some (orRaise_ok h)
      simp only [hkeys]

/-- A delta of an incremental sync removes the keys of its old entity and
sets its rows. -/
theorem deltaOps_ok (hok : DeltaOk p env delta) {ops : Ops}
    (h : deltaOps p env lmdb false delta = .ok ops) :
    ops = OrderedStore.stepOps (delta.committedKeys p env lmdb, delta.rows env) := by
  unfold deltaOps at h
  unfold OrderedStore.stepOps
  cases hentity : delta.entity with
  | some entity =>
    have hpk : delta.primaryKey = entity.get := by simp [Delta.primaryKey, hentity]
    have hoptions : delta.options = .absent := by simp [Delta.options, hentity]
    simp only [hentity] at h
    obtain ⟨schema, old, deletes, inserts, hschema, hold, hdeletes, hinserts, rfl⟩ :=
      lmdbUpdate_ok h
    rw [← hpk, ← hoptions] at hold
    rw [deleteOld_ok hschema hok hold hdeletes, insertEntityForTxn_some hentity hinserts]
  | none =>
    have hpk : delta.primaryKey = foreignGet delta.pk := by simp [Delta.primaryKey, hentity]
    have hoptions : delta.options = delta.wsId := by simp [Delta.options, hentity]
    simp only [hentity] at h
    obtain ⟨schema, old, hschema, hold, h⟩ := lmdbDelete_ok h
    rw [← hpk, ← hoptions] at hold
    rw [deleteOld_ok hschema hok hold h]
    simp [Delta.rows, hentity]

theorem mapM_deltaOps_steps {base : Lmdb} {isFullSync : Bool} {deltas : List Delta}
    {lists : List Ops}
    (hstep : ∀ delta ∈ deltas, ∀ ops, deltaOps p env lmdb isFullSync delta = .ok ops →
      ops = OrderedStore.stepOps (delta.committedKeys p env base, delta.rows env))
    (h : deltas.mapM (deltaOps p env lmdb isFullSync) = .ok lists) :
    lists.flatten = (batchSteps p env base deltas).flatMap OrderedStore.stepOps := by
  induction deltas generalizing lists with
  | nil =>
    obtain rfl : [] = lists := by simpa [pure, Except.pure] using h
    rfl
  | cons delta deltas ih =>
    obtain ⟨first, rest, hfirst, hrest, rfl⟩ := MapM.cons_ok h
    rw [List.flatten_cons, ih (fun d hd => hstep d (List.mem_cons_of_mem delta hd)) hrest,
      hstep delta List.mem_cons_self first hfirst]
    rfl

theorem syncOps_mapM {isFullSync : Bool} {deltas : List Delta} {ops : Ops}
    (h : syncOps p env lmdb deltas isFullSync = .ok ops) :
    ∃ lists, (deltas.map (Delta.prepared p)).mapM (deltaOps p env lmdb isFullSync) = .ok lists
      ∧ ops = lists.flatten := by
  obtain ⟨validated, hvalidated, h⟩ := MapM.bind_ok h
  obtain ⟨lists, hlists, h⟩ := MapM.bind_ok h
  rw [validateDeltas_ok hvalidated] at hlists
  exact ⟨lists, hlists, (Except.ok.inj h).symm⟩

theorem syncOps_ok {deltas : List Delta} {ops : Ops}
    (hok : ∀ delta ∈ deltas, DeltaOk p env (delta.prepared p))
    (h : syncOps p env lmdb deltas false = .ok ops) :
    ops = (batchSteps p env lmdb (deltas.map (Delta.prepared p))).flatMap
      OrderedStore.stepOps := by
  obtain ⟨lists, hlists, rfl⟩ := syncOps_mapM h
  refine mapM_deltaOps_steps (fun delta hdelta ops => ?_) hlists
  obtain ⟨raw, hraw, rfl⟩ := List.mem_map.mp hdelta
  exact deltaOps_ok (hok raw hraw)

end Steps

/-! ## Item keys -/

section Items

variable {p : Params} {defaultWs : Text} {lmdb : Lmdb} {delta before : Delta}

theorem insertKey_some {key : Text} (h : delta.insertKey (p.env defaultWs) = some key) :
    ∃ schema entity, p.db delta.type = some schema ∧ delta.entity = some entity
      ∧ key = itemKey delta.type
          (entity.wsId.getD (workspaceId (p.env defaultWs) schema .absent))
          (pkString schema entity.get) := by
  simp only [Delta.insertKey, Option.bind_eq_some_iff, Option.map_eq_some_iff] at h
  obtain ⟨entity, hentity, keys, hkeys, rfl⟩ := h
  obtain ⟨schema, hschema, hitem, -⟩ := entityKeys_some hkeys
  exact ⟨schema, entity, hschema, hentity, hitem⟩

theorem lookupKey_some {key : Text} (h : delta.lookupKey p (p.env defaultWs) = some key) :
    ∃ schema, p.db delta.type = some schema
      ∧ key = itemKey schema.name (workspaceId (p.env defaultWs) schema delta.options)
          (pkString schema delta.primaryKey) := by
  obtain ⟨schema, hschema, rfl⟩ := Option.map_eq_some_iff.mp h
  exact ⟨schema, hschema, rfl⟩

theorem setBy_rows {key : Text} (hkey : key.head? = some 73) (env : Env) :
    OrderedStore.setBy key (delta.rows env)
      = if delta.insertKey env = some key then delta.entity.map .item else none := by
  unfold Delta.rows Delta.insertKey
  cases delta.entity with
  | none => rfl
  | some entity =>
    cases hkeys : entityKeys env delta.type entity .absent with
    | none => simp [OrderedStore.setBy, hkeys]
    | some keys =>
      obtain ⟨schema, -, -, hidx⟩ := entityKeys_some hkeys
      have hnone : OrderedStore.setBy key
          (keys.2.map fun idx => (idx, Value.text keys.1)) = none := by
        refine OrderedStore.setBy_eq_none fun row hrow => ?_
        obtain ⟨idx, hmem, rfl⟩ := List.mem_map.mp hrow
        exact (hidx idx hmem).ne_of_head hkey
      simp only [OrderedStore.setBy_cons, hnone, Option.none_or, Option.bind_some, hkeys,
        Option.map_some, Option.some.injEq]

theorem restore_some {schema : Schema} {now : Int} {entity row : Entity}
    (h : restore schema now entity = some row) :
    row.fields = entity.fields ∧ row.wsId = entity.wsId := by
  unfold restore processTtlField at h
  split at h
  · split at h
    · obtain rfl := Option.some.inj h
      exact ⟨rfl, rfl⟩
    · split at h
      · obtain rfl := Option.some.inj h
        exact ⟨rfl, rfl⟩
      · cases h
  · obtain rfl := Option.some.inj h
    exact ⟨rfl, rfl⟩

theorem workspaceId_absent (p : Params) (defaultWs : Text) (schema : Schema) :
    workspaceId (p.env defaultWs) schema .absent = defaultWs := by
  unfold workspaceId
  split <;> rfl

theorem ownKey_rowToEntity {schema : Schema} {entity row : Entity}
    (h : restore schema p.now entity = some row) :
    ownKey (p.env defaultWs) schema (rowToEntity (p.env defaultWs) schema row)
      = ownKey (p.env defaultWs) schema entity := by
  obtain ⟨hfields, hwsId⟩ := restore_some h
  have hget : row.get = entity.get := by
    funext name
    simp only [Entity.get, hfields]
  unfold ownKey rowToEntity
  rw [workspaceId_absent]
  split
  · simp only [Option.getD_some, hwsId]
    rw [← hget]
    rfl
  · rw [hwsId, hget]

theorem removedKeys_cases (p : Params) (defaultWs : Text) {schema : Schema}
    (hname : p.db schema.name = some schema) (entity : Entity) :
    removedKeys p (p.env defaultWs) schema.name entity = []
      ∨ (ownKey (p.env defaultWs) schema entity
            ∈ removedKeys p (p.env defaultWs) schema.name entity
          ∧ ∀ key ∈ removedKeys p (p.env defaultWs) schema.name entity,
              key = ownKey (p.env defaultWs) schema entity ∨ IndexForm key) := by
  unfold removedKeys
  simp only [hname]
  cases hrestore : restore schema p.now entity with
  | none => exact .inl rfl
  | some row =>
    simp only
    cases hkeys : entityKeys (p.env defaultWs) schema.name
        (rowToEntity (p.env defaultWs) schema row) .absent with
    | none => exact .inl rfl
    | some keys =>
      obtain ⟨schema', hschema', hitem, hidx⟩ := entityKeys_some hkeys
      obtain rfl : schema = schema' := Option.some.inj (hname.symm.trans hschema')
      have hown : keys.1 = ownKey (p.env defaultWs) schema entity :=
        hitem.trans (ownKey_rowToEntity hrestore)
      refine .inr ⟨?_, fun key hkey => ?_⟩
      · rw [← hown]
        exact List.mem_cons_self
      · rcases List.mem_cons.mp hkey with rfl | hkey
        · exact .inl hown
        · exact .inr (hidx key hkey)

/-! ## One step -/

/-- The contents after the step of a delta. -/
def stepStore (p : Params) (env : Env) (lmdb : Lmdb) (delta : Delta) : Lmdb :=
  lmdb.write (OrderedStore.stepOps (delta.committedKeys p env lmdb, delta.rows env))

theorem get_write_step {key : Text} (hkey : key.head? = some 73) (lmdb : Lmdb)
    (removes : List Text) (delta : Delta) :
    (lmdb.write (OrderedStore.stepOps (removes, delta.rows (p.env defaultWs)))).get key
      = if delta.insertKey (p.env defaultWs) = some key then delta.entity.map .item
        else if key ∈ removes then none
        else lmdb.get key := by
  rw [OrderedStore.get_write_stepOps, setBy_rows hkey]
  split
  · rename_i hinsert
    obtain ⟨schema, entity, -, hentity, -⟩ := insertKey_some hinsert
    simp [hentity]
  · simp

theorem get_stepStore {key : Text} (hkey : key.head? = some 73) :
    (stepStore p (p.env defaultWs) lmdb before).get key
      = if before.insertKey (p.env defaultWs) = some key then before.entity.map .item
        else if key ∈ before.committedKeys p (p.env defaultWs) lmdb then none
        else lmdb.get key :=
  get_write_step hkey lmdb _ before

theorem type_of_insertKey (hp : RegistryOk p) (hok : DeltaOk p (p.env defaultWs) before)
    {schema : Schema} (hname : p.db schema.name = some schema) {wsId pk : Text} (hws : WsPart wsId)
    (h : before.insertKey (p.env defaultWs) = some (itemKey schema.name wsId pk)) :
    before.type = schema.name := by
  obtain ⟨schema', entity, hschema', hentity, heq⟩ := insertKey_some h
  have hws' := (hok schema' hschema').2 entity hentity
  exact (itemKey_inj (hp _ _ hname).2 (hp _ _ hschema').2 hws.1 hws'.1 hws.2 hws'.2 heq).1.symm

theorem type_of_lookupKey (hp : RegistryOk p) (hok : DeltaOk p (p.env defaultWs) before)
    {schema : Schema} (hname : p.db schema.name = some schema) {wsId pk : Text} (hws : WsPart wsId)
    (h : before.lookupKey p (p.env defaultWs) = some (itemKey schema.name wsId pk)) :
    before.type = schema.name := by
  obtain ⟨schema', hschema', heq⟩ := lookupKey_some h
  have hws' := (hok schema' hschema').1
  have hname' := (hp _ _ hschema').1
  rw [hname'] at heq
  exact (itemKey_inj (hp _ _ hname).2 (hp _ _ hschema').2 hws.1 hws'.1 hws.2 hws'.2 heq).1.symm

theorem OwnKeys.lookup (hp : RegistryOk p) (hok : DeltaOk p (p.env defaultWs) before)
    (hown : OwnKeys p (p.env defaultWs) lmdb) : before.OwnLookup p (p.env defaultWs) lmdb := by
  intro schema entity hschema hget
  refine hown schema _ _ entity ?_ (hok schema hschema).1 hget
  rw [(hp _ _ hschema).1]
  exact hschema

theorem not_mem_committedKeys (hp : RegistryOk p)
    (hown : before.OwnLookup p (p.env defaultWs) lmdb) {key : Text} (hkey : key.head? = some 73)
    (h : before.lookupKey p (p.env defaultWs) ≠ some key) :
    key ∉ before.committedKeys p (p.env defaultWs) lmdb := by
  intro hmem
  unfold Delta.committedKeys at hmem
  cases hlookup : before.lookupKey p (p.env defaultWs) with
  | none => simp [hlookup] at hmem
  | some key' =>
    simp only [hlookup, removedKeysAt] at hmem
    obtain ⟨schema, hschema, rfl⟩ := lookupKey_some hlookup
    have hname := (hp _ _ hschema).1
    cases hget : lmdb.get (itemKey schema.name
        (workspaceId (p.env defaultWs) schema before.options)
        (pkString schema before.primaryKey)) with
    | none => simp [hget] at hmem
    | some value =>
      cases value with
      | text s => simp [hget] at hmem
      | item entity =>
        simp only [hget, ← hname] at hmem
        have hdb : p.db schema.name = some schema := by rw [hname]; exact hschema
        rcases removedKeys_cases p defaultWs hdb entity with hnil | ⟨-, hall⟩
        · rw [hnil] at hmem
          cases hmem
        · rcases hall key hmem with heq | hindex
          · rw [hown schema entity hschema hget] at heq
            exact h (by rw [hlookup, heq])
          · exact hindex.ne_of_head hkey rfl

theorem removedKeysAt_stepStore (hp : RegistryOk p) (hok : DeltaOk p (p.env defaultWs) before)
    (hown : OwnKeys p (p.env defaultWs) lmdb) {schema : Schema}
    (hname : p.db schema.name = some schema) {wsId pk : Text} (hws : WsPart wsId) :
    removedKeysAt p (p.env defaultWs) (stepStore p (p.env defaultWs) lmdb before) schema.name
        (itemKey schema.name wsId pk)
      = if before.insertKey (p.env defaultWs) = some (itemKey schema.name wsId pk) then
          (before.entity.map (removedKeys p (p.env defaultWs) before.type)).getD []
        else if before.lookupKey p (p.env defaultWs) = some (itemKey schema.name wsId pk) then []
        else removedKeysAt p (p.env defaultWs) lmdb schema.name (itemKey schema.name wsId pk) := by
  have hkey := head?_itemKey schema.name wsId pk
  by_cases hinsert : before.insertKey (p.env defaultWs) = some (itemKey schema.name wsId pk)
  · obtain ⟨-, entity, -, hentity, -⟩ := insertKey_some hinsert
    rw [removedKeysAt, get_stepStore hkey, if_pos hinsert, if_pos hinsert, hentity,
      type_of_insertKey hp hok hname hws hinsert]
    rfl
  · rw [if_neg hinsert, removedKeysAt, get_stepStore hkey, if_neg hinsert]
    by_cases hlookup : before.lookupKey p (p.env defaultWs) = some (itemKey schema.name wsId pk)
    · rw [if_pos hlookup]
      have htype := type_of_lookupKey hp hok hname hws hlookup
      have hkeys : before.committedKeys p (p.env defaultWs) lmdb
          = removedKeysAt p (p.env defaultWs) lmdb schema.name (itemKey schema.name wsId pk) := by
        rw [Delta.committedKeys, hlookup, htype]
      rw [hkeys, removedKeysAt]
      cases hget : lmdb.get (itemKey schema.name wsId pk) with
      | none => simp
      | some value =>
        cases value with
        | text s => simp
        | item entity =>
          simp only
          rcases removedKeys_cases p defaultWs hname entity with hnil | ⟨hmem, -⟩
          · simp [hnil]
          · rw [hown schema wsId pk entity hname hws hget] at hmem
            simp [hmem]
    · rw [if_neg hlookup, if_neg (not_mem_committedKeys hp (hown.lookup hp hok) hkey hlookup), removedKeysAt]

theorem ownKeys_stepStore (hp : RegistryOk p) (hok : DeltaOk p (p.env defaultWs) before)
    (hown : OwnKeys p (p.env defaultWs) lmdb) :
    OwnKeys p (p.env defaultWs) (stepStore p (p.env defaultWs) lmdb before) := by
  intro schema wsId pk entity hname hws hget
  rw [get_stepStore (head?_itemKey schema.name wsId pk)] at hget
  split at hget
  · rename_i hinsert
    have htype := type_of_insertKey hp hok hname hws hinsert
    obtain ⟨schema', entity', hschema', hentity, heq⟩ := insertKey_some hinsert
    rw [htype, hname] at hschema'
    obtain rfl := Option.some.inj hschema'
    rw [hentity] at hget
    obtain rfl : entity' = entity := by simpa using hget
    rw [heq, ownKey, htype]
  · split at hget
    · cases hget
    · exact hown schema wsId pk entity hname hws hget

/-! ## A run of steps -/

/-- The contents after the steps of deltas one by one. -/
def runStore (p : Params) (env : Env) (lmdb : Lmdb) (deltas : List Delta) : Lmdb :=
  deltas.foldl (stepStore p env) lmdb

theorem runStore_append_singleton (p : Params) (env : Env) (lmdb : Lmdb) (deltas : List Delta)
    (delta : Delta) :
    runStore p env lmdb (deltas ++ [delta]) = stepStore p env (runStore p env lmdb deltas) delta := by
  simp [runStore, List.foldl_append]

theorem ownKeys_runStore (hp : RegistryOk p) {deltas : List Delta}
    (hok : ∀ delta ∈ deltas, DeltaOk p (p.env defaultWs) delta)
    (hown : OwnKeys p (p.env defaultWs) lmdb) :
    OwnKeys p (p.env defaultWs) (runStore p (p.env defaultWs) lmdb deltas) := by
  induction deltas generalizing lmdb with
  | nil => exact hown
  | cons delta deltas ih =>
    exact ih (fun d hd => hok d (List.mem_cons_of_mem delta hd))
      (ownKeys_stepStore hp (hok delta List.mem_cons_self) hown)

/-- The old entity of a delta, from the last earlier delta about it, is the
one that the earlier deltas leave. -/
theorem currentKeys_eq (hp : RegistryOk p) {earlier : List Delta}
    (hok : ∀ delta ∈ earlier, DeltaOk p (p.env defaultWs) delta)
    (hown : OwnKeys p (p.env defaultWs) lmdb) (hdelta : DeltaOk p (p.env defaultWs) delta) :
    delta.currentKeys p (p.env defaultWs) lmdb earlier
      = delta.committedKeys p (p.env defaultWs)
          (runStore p (p.env defaultWs) lmdb earlier) := by
  unfold Delta.currentKeys Delta.committedKeys
  cases hlookup : delta.lookupKey p (p.env defaultWs) with
  | none => rfl
  | some key =>
    obtain ⟨schema, hschema, rfl⟩ := lookupKey_some hlookup
    have hws := (hdelta schema hschema).1
    have hname := (hp _ _ hschema).1
    have hdb : p.db schema.name = some schema := by rw [hname]; exact hschema
    simp only [← hname]
    induction earlier using List.reverseRecOn with
    | nil => rfl
    | append_singleton earlier before ih =>
      have hbefore := hok before (List.mem_append_right earlier List.mem_cons_self)
      have hearlier : ∀ delta ∈ earlier, DeltaOk p (p.env defaultWs) delta :=
        fun d hd => hok d (List.mem_append_left [before] hd)
      rw [runStore_append_singleton, List.foldl_append, List.foldl_cons, List.foldl_nil,
        removedKeysAt_stepStore hp hbefore (ownKeys_runStore hp hearlier hown) hdb hws,
        ih hearlier]

theorem runStore_eq (hp : RegistryOk p) (earlier deltas : List Delta)
    (hok : ∀ delta ∈ earlier ++ deltas, DeltaOk p (p.env defaultWs) delta)
    (hown : OwnKeys p (p.env defaultWs) lmdb) :
    runStore p (p.env defaultWs) (runStore p (p.env defaultWs) lmdb earlier) deltas
      = (runStore p (p.env defaultWs) lmdb earlier).write
          ((sequenceSteps p (p.env defaultWs) lmdb earlier deltas).flatMap
            OrderedStore.stepOps) := by
  induction deltas generalizing earlier with
  | nil => rfl
  | cons delta deltas ih =>
    have hearlier : ∀ d ∈ earlier, DeltaOk p (p.env defaultWs) d :=
      fun d hd => hok d (List.mem_append_left _ hd)
    have hdelta := hok delta (List.mem_append_right earlier List.mem_cons_self)
    have hrest := ih (earlier ++ [delta]) (by simpa using hok)
    rw [runStore_append_singleton] at hrest
    rw [sequenceSteps, List.flatMap_cons, OrderedStore.write_append,
      currentKeys_eq hp hearlier hown hdelta]
    exact hrest

end Items

/-! ## Both ways compared -/

theorem rows_batchSteps {p : Params} {env : Env} {lmdb : Lmdb} {deltas : List Delta} :
    (batchSteps p env lmdb deltas).map Prod.snd = deltas.map (Delta.rows env) := by
  simp [batchSteps, Function.comp_def]

theorem rows_sequenceSteps {p : Params} {env : Env} {lmdb : Lmdb} {earlier deltas : List Delta} :
    (sequenceSteps p env lmdb earlier deltas).map Prod.snd = deltas.map (Delta.rows env) := by
  induction deltas generalizing earlier with
  | nil => rfl
  | cons delta deltas ih => rw [sequenceSteps, List.map_cons, List.map_cons, ih]

/-- A delta neither stores nor looks up what a later one looks up. -/
def Distinct (p : Params) (env : Env) (before delta : Delta) : Prop :=
  ∀ key ∈ delta.lookupKey p env,
    before.insertKey env ≠ some key ∧ before.lookupKey p env ≠ some key

instance (p : Params) (env : Env) (before delta : Delta) :
    Decidable (Distinct p env before delta) :=
  inferInstanceAs (Decidable (∀ key ∈ delta.lookupKey p env, _ ∧ _))

theorem currentKeys_of_distinct {p : Params} {env : Env} {lmdb : Lmdb} {earlier : List Delta}
    {delta : Delta} (h : ∀ before ∈ earlier, Distinct p env before delta) :
    delta.currentKeys p env lmdb earlier = delta.committedKeys p env lmdb := by
  unfold Delta.currentKeys Delta.committedKeys
  cases hlookup : delta.lookupKey p env with
  | none => rfl
  | some key =>
    simp only
    induction earlier using List.reverseRecOn with
    | nil => rfl
    | append_singleton earlier before ih =>
      obtain ⟨hinsert, hlook⟩ :=
        h before (List.mem_append_right earlier List.mem_cons_self) key hlookup
      rw [List.foldl_append, List.foldl_cons, List.foldl_nil, if_neg hinsert, if_neg hlook]
      exact ih fun d hd => h d (List.mem_append_left [before] hd)

theorem sequenceSteps_of_distinct {p : Params} {env : Env} {lmdb : Lmdb}
    {earlier deltas : List Delta} (h : (earlier ++ deltas).Pairwise (Distinct p env)) :
    sequenceSteps p env lmdb earlier deltas = batchSteps p env lmdb deltas := by
  induction deltas generalizing earlier with
  | nil => rfl
  | cons delta deltas ih =>
    have hdelta : ∀ before ∈ earlier, Distinct p env before delta := fun before hbefore =>
      (List.pairwise_append.mp h).2.2 before hbefore delta List.mem_cons_self
    rw [sequenceSteps, currentKeys_of_distinct hdelta, ih (by simpa using h)]
    rfl

theorem sameRemovals_of_distinct {p : Params} {env : Env} {lmdb : Lmdb} {deltas : List Delta}
    (h : deltas.Pairwise (Distinct p env)) : SameRemovals p env lmdb deltas := by
  intro key _ _
  rw [sequenceSteps_of_distinct (by simpa using h)]

theorem exists_row_batchSteps {p : Params} {env : Env} {lmdb : Lmdb} {deltas : List Delta}
    {key : Text} :
    (∃ step ∈ batchSteps p env lmdb deltas, ∃ row ∈ step.2, row.1 = key)
      ↔ ∃ delta ∈ deltas, ∃ row ∈ delta.rows env, row.1 = key := by
  simp [batchSteps]

/-! ## Successful syncs -/

/-- The default workspace that deltas are applied with, and whether it is
another one than before. -/
def effectiveDefault (defaultWorkspace : Text) (deltas : List Delta) : Text :=
  match preprocessDeltas defaultWorkspace deltas with
  | .ok (some id) => id
  | _ => defaultWorkspace

def defaultChanged (defaultWorkspace : Text) (deltas : List Delta) : Bool :=
  match preprocessDeltas defaultWorkspace deltas with
  | .ok (some _) => true
  | _ => false

/-- The node after an incremental sync of deltas with these operations. -/
def synced (node : Node) (deltas : List Delta) (ops : Ops) : Node where
  lmdb := node.lmdb.write (ops ++ endOps deltas (effectiveDefault node.defaultWorkspace deltas)
    (defaultChanged node.defaultWorkspace deltas))
  defaultWorkspace := effectiveDefault node.defaultWorkspace deltas

/-- An incremental sync is refused and writes nothing, or writes the
operations of its deltas. -/
theorem doSync_incremental_cases {p : Params} {node : Node} {deltas : List Delta}
    (hne : deltas ≠ []) :
    ((doSync p node (incremental deltas)).1 ≠ .ok
        ∧ (doSync p node (incremental deltas)).2.lmdb = node.lmdb)
      ∨ ∃ ops, syncOps p (p.env (effectiveDefault node.defaultWorkspace deltas)) node.lmdb deltas
            false = .ok ops
          ∧ doSync p node (incremental deltas) = (.ok, synced node deltas ops) := by
  have hsync : doSync p node (incremental deltas)
      = syncDeltas p node deltas false (incremental deltas) := by
    cases deltas with
    | nil => exact absurd rfl hne
    | cons delta deltas => rfl
  have happly (node : Node) (changed : Bool) :
      ((applyDeltas p node deltas changed false (incremental deltas)).1 ≠ .ok
          ∧ (applyDeltas p node deltas changed false (incremental deltas)).2.lmdb = node.lmdb)
        ∨ ∃ ops, syncOps p (p.env node.defaultWorkspace) node.lmdb deltas false = .ok ops
            ∧ applyDeltas p node deltas changed false (incremental deltas)
              = (.ok, { node with
                  lmdb := node.lmdb.write (ops ++ endOps deltas node.defaultWorkspace changed) }) := by
    cases hops : syncOps p (p.env node.defaultWorkspace) node.lmdb deltas false with
    | error failure => cases failure <;> simp [applyDeltas, hops, Failure.outcome]
    | ok ops => exact .inr ⟨ops, rfl, by simp [applyDeltas, hops, incremental, commit]⟩
  rw [hsync]
  unfold synced effectiveDefault defaultChanged syncDeltas
  cases hchanged : preprocessDeltas node.defaultWorkspace deltas with
  | error failure => cases failure <;> simp [Failure.outcome]
  | ok changed =>
    cases changed with
    | none => exact happly node false
    | some id => exact happly { node with defaultWorkspace := id } true

theorem doSync_incremental_ok {p : Params} {node : Node} {deltas : List Delta} (hne : deltas ≠ [])
    (h : (doSync p node (incremental deltas)).1 = .ok) :
    ∃ ops, syncOps p (p.env (effectiveDefault node.defaultWorkspace deltas)) node.lmdb deltas false
        = .ok ops
      ∧ (doSync p node (incremental deltas)).2 = synced node deltas ops := by
  rcases doSync_incremental_cases hne with ⟨hrefused, -⟩ | ⟨ops, hops, hsync⟩
  · exact absurd h hrefused
  · exact ⟨ops, hops, congrArg Prod.snd hsync⟩

theorem preprocessDeltas_cons (defaultWorkspace : Text) (delta : Delta) (deltas : List Delta) :
    preprocessDeltas defaultWorkspace (delta :: deltas)
      = match preprocessDeltas defaultWorkspace [delta] with
        | .ok none => preprocessDeltas defaultWorkspace deltas
        | result => result := by
  unfold preprocessDeltas
  cases hdefault : delta.defaultWorkspace with
  | none => simp [hdefault]
  | some entity =>
    by_cases hid : entity.get (ofText "id") = some (.text defaultWorkspace)
    · simp [hdefault, hid]
    · simp only [List.filterMap_cons, hdefault, List.filterMap_nil, List.find?_cons, hid,
        ne_eq, not_false_eq_true, decide_true]
      cases entity.get (ofText "id") with
      | none => rfl
      | some value => cases value <;> rfl

theorem preprocessDeltas_of_singles {defaultWorkspace : Text} {deltas : List Delta}
    (h : ∀ delta ∈ deltas, preprocessDeltas defaultWorkspace [delta] = .ok none) :
    preprocessDeltas defaultWorkspace deltas = .ok none := by
  induction deltas with
  | nil => rfl
  | cons delta deltas ih =>
    rw [preprocessDeltas_cons, h delta List.mem_cons_self]
    exact ih fun d hd => h d (List.mem_cons_of_mem delta hd)

/-- No delta behind the first changes the default workspace. -/
def DefaultStays (defaultWorkspace : Text) (deltas : List Delta) : Prop :=
  ∀ delta ∈ deltas.tail,
    preprocessDeltas (effectiveDefault defaultWorkspace (deltas.take 1)) [delta] = .ok none

theorem preprocessDeltas_of_stays {defaultWorkspace : Text} {delta : Delta} {deltas : List Delta}
    (h : DefaultStays defaultWorkspace (delta :: deltas)) :
    preprocessDeltas defaultWorkspace (delta :: deltas)
      = preprocessDeltas defaultWorkspace [delta] := by
  rw [preprocessDeltas_cons]
  cases hfirst : preprocessDeltas defaultWorkspace [delta] with
  | error failure => rfl
  | ok changed =>
    cases changed with
    | some id => rfl
    | none =>
      refine preprocessDeltas_of_singles fun d hd => ?_
      have hd' := h d hd
      simpa [effectiveDefault, hfirst] using hd'

/-! ## Contents key by key -/

theorem get_endOps (lmdb : Lmdb) (deltas : List Delta) (defaultWorkspace : Text) (record : Bool)
    (key : Text) :
    (lmdb.write (endOps deltas defaultWorkspace record)).get key
      = if record ∧ key = declarativeDefaultWorkspaceKey then some (.text defaultWorkspace)
        else if key = declarativeHashKey then
          (deltas.getLast?.map fun delta => Value.text delta.version).or (lmdb.get key)
        else lmdb.get key := by
  have hne : declarativeHashKey ≠ declarativeDefaultWorkspaceKey := by decide
  unfold endOps
  rw [OrderedStore.write_append]
  cases deltas.getLast? with
  | none => cases record <;> simp [OrderedStore.get_set]
  | some delta =>
    cases record with
    | false => simp [OrderedStore.get_set]
    | true =>
      by_cases hkey : key = declarativeDefaultWorkspaceKey
      · simp [hkey]
      · simp [hkey, OrderedStore.get_set]

theorem get_endOps_entityKey {key : Text} (hkey : EntityKey key) (lmdb : Lmdb)
    (deltas : List Delta) (defaultWorkspace : Text) (record : Bool) :
    (lmdb.write (endOps deltas defaultWorkspace record)).get key = lmdb.get key := by
  have hws : key ≠ declarativeDefaultWorkspaceKey := by
    rintro rfl
    exact not_entityKey_defaultWorkspace hkey
  have hhash : key ≠ declarativeHashKey := by
    rintro rfl
    exact not_entityKey_hash hkey
  rw [get_endOps]
  simp [hws, hhash]

/-- Contents with the same entities. -/
def SameEntities (s t : Lmdb) : Prop := ∀ key, EntityKey key → s.get key = t.get key

theorem eq_iff_of_entities {s t : Lmdb} (h : ∀ key, ¬ EntityKey key → s.get key = t.get key) :
    s = t ↔ SameEntities s t := by
  constructor
  · rintro rfl key -
    rfl
  · intro hentities
    refine OrderedStore.ext fun key => ?_
    by_cases hkey : EntityKey key
    · exact hentities key hkey
    · exact h key hkey

theorem SameEntities.committedKeys {s t : Lmdb} (h : SameEntities s t) {p : Params} {defaultWs : Text}
    (delta : Delta) :
    delta.committedKeys p (p.env defaultWs) s = delta.committedKeys p (p.env defaultWs) t := by
  unfold Delta.committedKeys
  cases hlookup : delta.lookupKey p (p.env defaultWs) with
  | none => rfl
  | some key =>
    obtain ⟨schema, -, rfl⟩ := lookupKey_some hlookup
    simp only [removedKeysAt, h _ (.inl (head?_itemKey _ _ _))]

theorem SameEntities.stepStore {s t : Lmdb} (h : SameEntities s t) {p : Params} {defaultWs : Text}
    (delta : Delta) :
    SameEntities (stepStore p (p.env defaultWs) s delta)
      (stepStore p (p.env defaultWs) t delta) := by
  intro key hkey
  rw [Apply.stepStore, Apply.stepStore, OrderedStore.get_write_stepOps,
    OrderedStore.get_write_stepOps, h.committedKeys delta, h key hkey]

theorem syncEach_one {p : Params} {node : Node} {delta : Delta} {defaultWs : Text}
    (hok : DeltaOk p (p.env defaultWs) (delta.prepared p))
    (heff : effectiveDefault node.defaultWorkspace [delta] = defaultWs)
    (h : (doSync p node (incremental [delta])).1 = .ok) :
    (doSync p node (incremental [delta])).2.defaultWorkspace = defaultWs
    ∧ SameEntities (doSync p node (incremental [delta])).2.lmdb
        (stepStore p (p.env defaultWs) node.lmdb (delta.prepared p))
    ∧ ∀ key, ¬ EntityKey key → (doSync p node (incremental [delta])).2.lmdb.get key
        = (node.lmdb.write (endOps [delta] defaultWs
            (defaultChanged node.defaultWorkspace [delta]))).get key := by
  obtain ⟨ops, hops, hnode⟩ := doSync_incremental_ok (List.cons_ne_nil delta []) h
  rw [synced, heff] at hnode
  rw [heff] at hops
  have hkeys := entityKey_of_syncOps hops
  have hstep := syncOps_ok (by simpa using hok) hops
  rw [hnode]
  refine ⟨rfl, fun key hkey => ?_, fun key hkey => ?_⟩
  · simp only [OrderedStore.write_append]
    rw [get_endOps_entityKey hkey, hstep]
    simp [batchSteps, stepStore]
  · have hother : (node.lmdb.write ops).get key = node.lmdb.get key :=
      OrderedStore.get_write_of_notMem fun op hop heq => hkey (heq ▸ hkeys op hop)
    simp only [OrderedStore.write_append]
    rw [get_endOps, get_endOps, hother]

theorem effectiveDefault_of_none {defaultWs : Text} {deltas : List Delta}
    (h : preprocessDeltas defaultWs deltas = .ok none) :
    effectiveDefault defaultWs deltas = defaultWs ∧ defaultChanged defaultWs deltas = false := by
  simp [effectiveDefault, defaultChanged, h]

theorem get_endOps_cons {s t : Lmdb} {key defaultWs : Text} {record : Bool} {delta : Delta}
    {deltas : List Delta}
    (h : t.get key = (s.write (endOps [delta] defaultWs record)).get key) :
    (t.write (endOps deltas defaultWs false)).get key
      = (s.write (endOps (delta :: deltas) defaultWs record)).get key := by
  have hne : declarativeHashKey ≠ declarativeDefaultWorkspaceKey := by decide
  rw [get_endOps, h, get_endOps, get_endOps]
  by_cases hhash : key = declarativeHashKey
  · subst hhash
    simp only [hne, and_false, if_false, if_true, List.getLast?_cons, List.getLast?_nil]
    cases deltas.getLast? <;> simp
  · simp [hhash]

theorem syncEach_rest {p : Params} {defaultWs : Text} {deltas : List Delta}
    (hok : ∀ delta ∈ deltas, DeltaOk p (p.env defaultWs) (delta.prepared p))
    (hstays : ∀ delta ∈ deltas, preprocessDeltas defaultWs [delta] = .ok none) {node : Node}
    (hnode : node.defaultWorkspace = defaultWs) (heach : EachOk p node deltas) {s : Lmdb}
    (hs : SameEntities node.lmdb s) :
    SameEntities (syncEach p node deltas).lmdb
        (runStore p (p.env defaultWs) s (deltas.map (Delta.prepared p)))
    ∧ ∀ key, ¬ EntityKey key → (syncEach p node deltas).lmdb.get key
        = (node.lmdb.write (endOps deltas defaultWs false)).get key := by
  induction deltas generalizing node s with
  | nil => exact ⟨hs, fun key _ => rfl⟩
  | cons delta deltas ih =>
    obtain ⟨heff, hchanged⟩ := effectiveDefault_of_none (hstays delta List.mem_cons_self)
    obtain ⟨hdefault, hentities, hconfig⟩ := syncEach_one (hok delta List.mem_cons_self)
      (by rw [hnode, heff]) heach.1
    obtain ⟨hrest, hrestConfig⟩ := ih (fun d hd => hok d (List.mem_cons_of_mem delta hd))
      (fun d hd => hstays d (List.mem_cons_of_mem delta hd)) hdefault heach.2
      (fun key hkey => (hentities key hkey).trans (hs.stepStore (delta.prepared p) key hkey))
    refine ⟨hrest, fun key hkey => ?_⟩
    have hone := hconfig key hkey
    rw [hnode, hchanged] at hone
    exact (hrestConfig key hkey).trans (get_endOps_cons hone)

theorem doSync_batch {p : Params} {node : Node} {delta : Delta} {deltas : List Delta}
    {defaultWs : Text}
    (hok : ∀ d ∈ delta :: deltas, DeltaOk p (p.env defaultWs) (d.prepared p))
    (heff : effectiveDefault node.defaultWorkspace (delta :: deltas) = defaultWs)
    (h : (doSync p node (incremental (delta :: deltas))).1 = .ok) :
    SameEntities (doSync p node (incremental (delta :: deltas))).2.lmdb
        (node.lmdb.write ((batchSteps p (p.env defaultWs) node.lmdb
          ((delta :: deltas).map (Delta.prepared p))).flatMap OrderedStore.stepOps))
    ∧ ∀ key, ¬ EntityKey key → (doSync p node (incremental (delta :: deltas))).2.lmdb.get key
        = (node.lmdb.write (endOps (delta :: deltas) defaultWs
            (defaultChanged node.defaultWorkspace (delta :: deltas)))).get key := by
  obtain ⟨ops, hops, hnode⟩ := doSync_incremental_ok (List.cons_ne_nil delta deltas) h
  rw [synced, heff] at hnode
  rw [heff] at hops
  have hkeys := entityKey_of_syncOps hops
  rw [hnode, ← syncOps_ok hok hops]
  refine ⟨fun key hkey => ?_, fun key hkey => ?_⟩
  · simp only [OrderedStore.write_append]
    exact get_endOps_entityKey hkey _ _ _ _
  · have hother : (node.lmdb.write ops).get key = node.lmdb.get key :=
      OrderedStore.get_write_of_notMem fun op hop heq => hkey (heq ▸ hkeys op hop)
    simp only [OrderedStore.write_append]
    rw [get_endOps, get_endOps, hother]

/-- The default workspace of the deltas, when it stays behind the first. -/
def listDefault (node : Node) (deltas : List Delta) : Text :=
  effectiveDefault node.defaultWorkspace (deltas.take 1)

/-- When the list and its single deltas are accepted and the default
workspace stays, the contents are the same exactly when the removals
are. -/
theorem batch_equals_sequence_iff (p : Params) (hp : RegistryOk p) (node : Node)
    (deltas : List Delta) (hstays : DefaultStays node.defaultWorkspace deltas)
    (hok : ∀ delta ∈ deltas, DeltaOk p (p.env (listDefault node deltas)) (delta.prepared p))
    (hown : OwnKeys p (p.env (listDefault node deltas)) node.lmdb)
    (hbatch : (doSync p node (incremental deltas)).1 = .ok) (heach : EachOk p node deltas) :
    (doSync p node (incremental deltas)).2.lmdb = (syncEach p node deltas).lmdb
      ↔ SameRemovals p (p.env (listDefault node deltas)) node.lmdb
          (deltas.map (Delta.prepared p)) := by
  cases deltas with
  | nil => exact iff_of_true rfl fun key _ _ => rfl
  | cons delta deltas =>
    have hpreprocess := preprocessDeltas_of_stays hstays
    have heff : effectiveDefault node.defaultWorkspace (delta :: deltas)
        = listDefault node (delta :: deltas) := by
      simp [listDefault, effectiveDefault, hpreprocess]
    have hchanged : defaultChanged node.defaultWorkspace (delta :: deltas)
        = defaultChanged node.defaultWorkspace [delta] := by
      simp [defaultChanged, hpreprocess]
    obtain ⟨hentities, hconfig⟩ := doSync_batch hok heff hbatch
    obtain ⟨hdefault, hfirst, hfirstConfig⟩ :=
      syncEach_one (hok delta List.mem_cons_self) rfl heach.1
    obtain ⟨hrest, hrestConfig⟩ := syncEach_rest
      (fun d hd => hok d (List.mem_cons_of_mem delta hd)) hstays hdefault heach.2 hfirst
    have hrun := runStore_eq hp [] ((delta :: deltas).map (Delta.prepared p))
      (fun d hd => by
        obtain ⟨raw, hraw, rfl⟩ := List.mem_map.mp hd
        exact hok raw hraw) hown
    have hsame : ∀ key, ¬ EntityKey key →
        (doSync p node (incremental (delta :: deltas))).2.lmdb.get key
          = (syncEach p node (delta :: deltas)).lmdb.get key := by
      intro key hkey
      rw [hconfig key hkey, hchanged]
      exact ((hrestConfig key hkey).trans (get_endOps_cons (hfirstConfig key hkey))).symm
    refine (eq_iff_of_entities hsame).trans (forall₂_congr fun key hkey => ?_)
    have hsequence : (syncEach p node (delta :: deltas)).lmdb.get key
        = (node.lmdb.write ((sequenceSteps p (p.env (listDefault node (delta :: deltas)))
            node.lmdb [] ((delta :: deltas).map (Delta.prepared p))).flatMap
              OrderedStore.stepOps)).get key :=
      (hrest key hkey).trans (congrArg (·.get key) hrun)
    rw [hentities key hkey, hsequence,
      OrderedStore.get_write_steps_eq_iff _ (rows_batchSteps.trans rows_sequenceSteps.symm),
      exists_row_batchSteps]

/-! ## Lists that are refused -/

/-- Each of the syncs of single deltas is refused. -/
def EachRefused (p : Params) : Node → List Delta → Prop
  | _, [] => True
  | node, delta :: deltas =>
    (doSync p node (incremental [delta])).1 ≠ .ok
      ∧ EachRefused p (doSync p node (incremental [delta])).2 deltas

theorem lmdb_of_refused {p : Params} {node : Node} {deltas : List Delta}
    (h : (doSync p node (incremental deltas)).1 ≠ .ok) :
    (doSync p node (incremental deltas)).2.lmdb = node.lmdb := by
  cases deltas with
  | nil => rfl
  | cons delta deltas =>
    rcases doSync_incremental_cases (List.cons_ne_nil delta deltas) with
      ⟨-, hlmdb⟩ | ⟨ops, -, hsync⟩
    · exact hlmdb
    · exact absurd (congrArg Prod.fst hsync) h

theorem hash_of_accepted {p : Params} {node : Node} {delta : Delta}
    (h : (doSync p node (incremental [delta])).1 = .ok) :
    (doSync p node (incremental [delta])).2.lmdb.get declarativeHashKey
      = some (.text delta.version) := by
  have hne : declarativeHashKey ≠ declarativeDefaultWorkspaceKey := by decide
  obtain ⟨ops, -, hnode⟩ := doSync_incremental_ok (List.cons_ne_nil delta []) h
  rw [hnode, synced, OrderedStore.write_append, get_endOps]
  simp [hne]

theorem syncEach_refused {p : Params} {node : Node} {deltas : List Delta}
    (h : EachRefused p node deltas) : (syncEach p node deltas).lmdb = node.lmdb := by
  induction deltas generalizing node with
  | nil => rfl
  | cons delta deltas ih => exact (ih h.2).trans (lmdb_of_refused h.1)

theorem refused_or_hash (p : Params) (node : Node) (deltas : List Delta) :
    EachRefused p node deltas
      ∨ ∃ delta ∈ deltas, (syncEach p node deltas).lmdb.get declarativeHashKey
          = some (.text delta.version) := by
  induction deltas generalizing node with
  | nil => exact .inl trivial
  | cons delta deltas ih =>
    have hcons : syncEach p node (delta :: deltas)
        = syncEach p (doSync p node (incremental [delta])).2 deltas := rfl
    rw [hcons]
    rcases ih (doSync p node (incremental [delta])).2 with hrest | ⟨d, hd, hversion⟩
    · by_cases hok : (doSync p node (incremental [delta])).1 = .ok
      · rw [syncEach_refused hrest]
        exact .inr ⟨delta, List.mem_cons_self, hash_of_accepted hok⟩
      · exact .inl ⟨hok, hrest⟩
    · exact .inr ⟨d, List.mem_cons_of_mem delta hd, hversion⟩

/-- For a list that is refused as a whole, with versions other than the
stored one, the contents are the same exactly when its deltas are refused
one by one as well. -/
theorem refused_batch_equals_sequence_iff (p : Params) (node : Node) (deltas : List Delta)
    (hbatch : (doSync p node (incremental deltas)).1 ≠ .ok)
    (hnew : ∀ delta ∈ deltas, node.lmdb.get declarativeHashKey ≠ some (.text delta.version)) :
    (doSync p node (incremental deltas)).2.lmdb = (syncEach p node deltas).lmdb
      ↔ EachRefused p node deltas := by
  rw [lmdb_of_refused hbatch]
  refine ⟨fun heq => ?_, fun hrefused => (syncEach_refused hrefused).symm⟩
  rcases refused_or_hash p node deltas with hrefused | ⟨delta, hdelta, hversion⟩
  · exact hrefused
  · rw [← heq] at hversion
    exact absurd hversion (hnew delta hdelta)

/-! ## Lists of two deltas -/

def secondId : Text := ofText "5d0d2a77-54c1-4b3e-9f1e-8f5c7a3be0c2"

/-- Two new consumers. -/
def twoConsumers : List Delta :=
  [consumerDelta [(ofText "username", .text (ofText "alice"))],
    { consumerDelta [] with
      entity := some { fields := [(ofText "id", .text secondId),
                         (ofText "username", .text (ofText "bob"))], wsId := some otherWs,
                       ttl := none } }]

theorem registryOk_of_find? {p : Params} {schemas : List Schema}
    (hdb : p.db = fun name => schemas.find? fun schema => schema.name = name)
    (hplain : ∀ schema ∈ schemas, Plain schema.name) : RegistryOk p := by
  intro name schema h
  rw [hdb] at h
  have hname : schema.name = name := by simpa using List.find?_some h
  exact ⟨hname, hname ▸ hplain schema (List.mem_of_find?_eq_some h)⟩

theorem get_itemKey_recordedNode (name wsId pk : Text) :
    recordedNode.lmdb.get (itemKey name wsId pk) = none := by
  have hne : itemKey name wsId pk ≠ declarativeDefaultWorkspaceKey := by
    intro heq
    have hhead := head?_itemKey name wsId pk
    rw [heq] at hhead
    exact absurd hhead (by decide)
  simp [recordedNode, OrderedStore.get_set, hne]

theorem registryOk_consumerParams : RegistryOk consumerParams :=
  @registryOk_of_find? consumerParams [workspaces, consumers] rfl (by decide +kernel)

theorem ownKeys_recordedNode (env : Env) : OwnKeys consumerParams env recordedNode.lmdb := by
  intro schema wsId pk entity _ _ hget
  rw [get_itemKey_recordedNode] at hget
  cases hget

theorem deltaOk_consumers {delta : Delta} (htype : delta.type = consumers.name)
    (hoptions : WsPart (workspaceId (consumerParams.env defaultWs) consumers delta.options))
    (hentity : ∀ entity ∈ delta.entity, entity.wsId = some otherWs) :
    DeltaOk consumerParams (consumerParams.env defaultWs) delta := by
  intro schema hschema
  obtain rfl : consumers = schema := by
    have hdb : consumerParams.db consumers.name = some consumers := by decide +kernel
    rw [htype, hdb] at hschema
    exact Option.some.inj hschema
  refine ⟨hoptions, fun entity h => ?_⟩
  rw [hentity entity h]
  decide +kernel

/-- Two consumers are stored the same both ways. -/
theorem two_consumers_stored_both_ways :
    (doSync consumerParams recordedNode (incremental twoConsumers)).2.lmdb
      = (syncEach consumerParams recordedNode twoConsumers).lmdb := by
  have hdefault : listDefault recordedNode twoConsumers = defaultWs := by decide +kernel
  refine (batch_equals_sequence_iff consumerParams registryOk_consumerParams recordedNode
    twoConsumers ?_ ?_ (ownKeys_recordedNode _) (by decide +kernel)
    ⟨by decide +kernel, by decide +kernel, trivial⟩).mpr (sameRemovals_of_distinct ?_)
  · intro delta hdelta
    obtain rfl : delta = twoConsumers[1] := by simpa [twoConsumers] using hdelta
    decide +kernel
  · rw [hdefault]
    intro delta hdelta
    simp only [twoConsumers, List.mem_cons, List.not_mem_nil, or_false] at hdelta
    obtain rfl | rfl := hdelta
    · exact deltaOk_consumers (by decide +kernel) (by decide +kernel) (by decide +kernel)
    · exact deltaOk_consumers (by decide +kernel) (by decide +kernel) (by decide +kernel)
  · rw [hdefault]
    decide +kernel

/-- A consumer is created and deleted. -/
def createdAndDeleted : List Delta :=
  [consumerDelta [(ofText "username", .text (ofText "alice"))],
    { consumerDelta [] with
      entity := none
      pk := [(ofText "id", consumerId)] }]

/-- Together they leave the consumer there, one by one they do not. -/
theorem batch_keeps_deleted_consumer :
    (doSync consumerParams recordedNode (incremental createdAndDeleted)).1 = .ok
    ∧ EachOk consumerParams recordedNode createdAndDeleted
    ∧ (doSync consumerParams recordedNode (incremental createdAndDeleted)).2.lmdb
        ≠ (syncEach consumerParams recordedNode createdAndDeleted).lmdb := by
  refine ⟨by decide +kernel, ⟨by decide +kernel, by decide +kernel, trivial⟩, fun heq => ?_⟩
  have hget := congrArg
    (fun lmdb => (lmdb.get (itemKey consumers.name otherWs consumerId)).isSome) heq
  revert hget
  decide +kernel

end KongGateway.Kong.Clustering.Apply

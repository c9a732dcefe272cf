import KongGateway.Kong.Db.Declarative.Keys
import KongGateway.Kong.Clustering.Sync.Apply

/-!
# Rollback — what a failed load leaves behind

The contents of LMDB change at the commit only. `kong.default_workspace`
is replaced before the deltas are validated and stays replaced when the
sync fails; a later sync that names the same workspace sees no change and
does not record it. A full sync that cannot notify the other workers
reports a failure after its commit.
-/

namespace KongGateway.Kong.Clustering.Apply

open Bytes Db.Declarative Db.Off

/-- The default workspace is the one recorded in LMDB. -/
def Recorded (node : Node) : Prop :=
  node.lmdb.get declarativeDefaultWorkspaceKey = some (.text node.defaultWorkspace)

/-- A call that returns an error changes nothing; after a successful one the
default workspace is recorded. -/
def Atomic (before : Node) : Outcome × Node → Prop
  | (.ok, after) => Recorded after
  | (.err _, after) => after = before
  | (.raised, _) => True

/-! ## Keys of a transaction -/

/-- Item keys and index keys start with a letter of their own. -/
def IndexForm (key : Text) : Prop := key.head? = some 85 ∨ key.head? = some 70

def EntityKey (key : Text) : Prop := key.head? = some 73 ∨ IndexForm key

theorem not_entityKey_defaultWorkspace : ¬ EntityKey declarativeDefaultWorkspaceKey := by
  unfold EntityKey IndexForm
  decide

theorem not_entityKey_hash : ¬ EntityKey declarativeHashKey := by
  unfold EntityKey IndexForm
  decide

theorem indexForm_uniqueFieldKey (env : Env) (name wsId field value : Text) :
    IndexForm (uniqueFieldKey env name wsId field value) :=
  .inl (head?_uniqueFieldKey env name wsId field value)

theorem indexForm_foreignFieldKey (name wsId field id pk : Text) :
    IndexForm (foreignFieldKey name wsId field id pk) :=
  .inr (head?_foreignFieldKey name wsId field id pk)

theorem IndexForm.ne_of_head {k k' : Text} (h : IndexForm k) (hk' : k'.head? = some 73) :
    k ≠ k' := by
  rintro rfl
  unfold IndexForm at h
  rw [hk'] at h
  revert h
  decide

theorem indexForm_of_foreignKeys {env : Env} {name wsId pk : Text} {field : Field}
    {value : FieldValue} {keys : List Text}
    (h : foreignKeys env name wsId pk field value = some keys) {k : Text} (hk : k ∈ keys) :
    IndexForm k := by
  unfold foreignKeys at h
  split at h
  · obtain rfl := Option.some.inj h
    cases hk
  · simp only [Option.bind_eq_bind, Option.bind_eq_some_iff, Option.some.injEq] at h
    obtain ⟨schema, -, rfl⟩ := h
    rw [List.mem_singleton.mp hk]
    exact indexForm_foreignFieldKey _ _ _ _ _
  · cases h

theorem indexForm_of_fieldKeys {env : Env} {name wsId pk : Text} {item : Entity} {field : Field}
    {keys : List Text} (h : fieldKeys env name wsId pk item field = some keys) {k : Text}
    (hk : k ∈ keys) : IndexForm k := by
  unfold fieldKeys at h
  split at h
  · obtain rfl := Option.some.inj h
    cases hk
  · obtain rfl := Option.some.inj h
    cases hk
  · simp only [Option.bind_eq_bind, Option.bind_eq_some_iff, Option.some.injEq] at h
    obtain ⟨unique, hunique, foreign, hforeign, rfl⟩ := h
    rcases List.mem_append.mp hk with hk | hk
    · unfold uniqueKeys at hunique
      split at hunique
      · obtain ⟨s, -, rfl⟩ := Option.map_eq_some_iff.mp hunique
        rw [List.mem_singleton.mp hk]
        exact indexForm_uniqueFieldKey _ _ _ _ _
      · obtain rfl := Option.some.inj hunique
        cases hk
    · exact indexForm_of_foreignKeys hforeign hk

theorem entityKeys_some {env : Env} {name : Text} {item : Entity} {options : WorkspaceOption}
    {keys : Text × List Text} (h : entityKeys env name item options = some keys) :
    ∃ schema, env.db name = some schema
      ∧ keys.1 = itemKey name (item.wsId.getD (workspaceId env schema options))
          (pkString schema item.get)
      ∧ ∀ k ∈ keys.2, IndexForm k := by
  simp only [entityKeys, Option.bind_eq_bind, Option.bind_eq_some_iff] at h
  obtain ⟨schema, hschema, h⟩ := h
  split at h
  · cases h
  · simp only [Option.bind_eq_some_iff, Option.some.injEq] at h
    obtain ⟨fields, hfields, rfl⟩ := h
    refine ⟨schema, hschema, rfl, fun k hk => ?_⟩
    rcases List.mem_append.mp hk with hk | hk
    · unfold cacheKeyKeys at hk
      split at hk
      · rw [List.mem_singleton.mp hk]
        exact indexForm_uniqueFieldKey _ _ _ _ _
      · cases hk
    · obtain ⟨keys, hkeys, hk⟩ := List.mem_flatten.mp hk
      obtain ⟨field, -, hfield⟩ := MapM.mem_of_some hfields hkeys
      exact indexForm_of_fieldKeys hfield hk

theorem entityKey_of_setEntityForTxn {env : Env} {name : Text} {item : Entity}
    {options : WorkspaceOption} {isDelete : Bool} {ops : Ops}
    (h : setEntityForTxn env name item options isDelete = some ops) :
    ∀ op ∈ ops, EntityKey op.1 := by
  simp only [setEntityForTxn, Option.bind_eq_bind, Option.bind_eq_some_iff,
    Option.some.injEq] at h
  obtain ⟨keys, hkeys, rfl⟩ := h
  obtain ⟨schema, -, hitem, hidx⟩ := entityKeys_some hkeys
  intro op hop
  rcases List.mem_cons.mp hop with rfl | hop
  · rw [hitem]
    exact .inl (head?_itemKey _ _ _)
  · obtain ⟨k, hk, rfl⟩ := List.mem_map.mp hop
    exact .inr (hidx k hk)

theorem orRaise_ok {α : Type} {o : Option α} {a : α} (h : orRaise o = .ok a) : o = some a := by
  cases o with
  | none => cases h
  | some b => rw [Except.ok.inj h]

section Ops

variable {p : Params} {env : Env} {lmdb : Lmdb} {delta : Delta} {ops : Ops}

theorem entityKey_of_deleteOld {type : Text} {old : Option Entity}
    (h : deleteOld env type old = .ok ops) : ∀ op ∈ ops, EntityKey op.1 := by
  cases old with
  | none =>
    obtain rfl : [] = ops := Except.ok.inj h
    simp
  | some old => exact entityKey_of_setEntityForTxn (orRaise_ok h)

/-- The operations of an update: those that delete the old entity, and those
that insert the new one. -/
theorem lmdbUpdate_ok {entity : Entity} {isFullSync : Bool}
    (h : lmdbUpdate p env lmdb delta entity isFullSync = .ok ops) :
    ∃ schema old deletes inserts, p.db delta.type = some schema
      ∧ daoSelect p env lmdb schema entity.get .absent = .ok old
      ∧ deleteOld env delta.type (if isFullSync then none else old) = .ok deletes
      ∧ insertEntityForTxn env delta.type entity .absent = some inserts
      ∧ ops = deletes ++ inserts := by
  obtain ⟨schema, hschema, h⟩ := MapM.bind_ok h
  obtain ⟨old, hold, h⟩ := MapM.bind_ok h
  obtain ⟨deletes, hdeletes, h⟩ := MapM.bind_ok h
  obtain ⟨inserts, hinserts, h⟩ := MapM.bind_ok h
  exact ⟨schema, old, deletes, inserts, orRaise_ok hschema, hold, hdeletes, orRaise_ok hinserts,
    (Except.ok.inj h).symm⟩

theorem lmdbDelete_ok (h : lmdbDelete p env lmdb delta = .ok ops) :
    ∃ schema old, p.db delta.type = some schema
      ∧ daoSelect p env lmdb schema (foreignGet delta.pk) delta.wsId = .ok old
      ∧ deleteOld env delta.type old = .ok ops := by
  obtain ⟨schema, hschema, h⟩ := MapM.bind_ok h
  obtain ⟨old, hold, h⟩ := MapM.bind_ok h
  exact ⟨schema, old, orRaise_ok hschema, hold, h⟩

theorem entityKey_of_deltaOps {isFullSync : Bool}
    (h : deltaOps p env lmdb isFullSync delta = .ok ops) : ∀ op ∈ ops, EntityKey op.1 := by
  unfold deltaOps at h
  split at h
  · obtain ⟨_, _, deletes, inserts, -, -, hdeletes, hinserts, rfl⟩ := lmdbUpdate_ok h
    intro op hop
    rcases List.mem_append.mp hop with hop | hop
    · exact entityKey_of_deleteOld hdeletes op hop
    · exact entityKey_of_setEntityForTxn hinserts op hop
  · obtain ⟨_, _, -, -, h⟩ := lmdbDelete_ok h
    exact entityKey_of_deleteOld h

theorem entityKey_of_syncOps {deltas : List Delta} {isFullSync : Bool}
    (h : syncOps p env lmdb deltas isFullSync = .ok ops) : ∀ op ∈ ops, EntityKey op.1 := by
  obtain ⟨validated, -, h⟩ := MapM.bind_ok h
  obtain ⟨lists, hlists, h⟩ := MapM.bind_ok h
  obtain rfl := Except.ok.inj h
  intro op hop
  obtain ⟨list, hlist, hop⟩ := List.mem_flatten.mp hop
  obtain ⟨delta, -, hdelta⟩ := MapM.mem_of_ok hlists hlist
  exact entityKey_of_deltaOps hdelta op hop

end Ops

/-! ## Contents after a commit -/

theorem get_defaultWorkspace_of_ops {lmdb : Lmdb} {ops : Ops} (h : ∀ op ∈ ops, EntityKey op.1) :
    (lmdb.write ops).get declarativeDefaultWorkspaceKey
      = lmdb.get declarativeDefaultWorkspaceKey := by
  refine OrderedStore.get_write_of_notMem fun op hop heq => not_entityKey_defaultWorkspace ?_
  rw [← heq]
  exact h op hop

theorem get_defaultWorkspace_endOps (lmdb : Lmdb) (deltas : List Delta) (defaultWorkspace : Text)
    (record : Bool) :
    (lmdb.write (endOps deltas defaultWorkspace record)).get declarativeDefaultWorkspaceKey
      = if record then some (.text defaultWorkspace)
        else lmdb.get declarativeDefaultWorkspaceKey := by
  have hne : declarativeDefaultWorkspaceKey ≠ declarativeHashKey := by decide
  have hhash : (lmdb.write ((deltas.getLast?.map fun delta =>
      (declarativeHashKey, some (Value.text delta.version))).toList)).get
        declarativeDefaultWorkspaceKey = lmdb.get declarativeDefaultWorkspaceKey := by
    refine OrderedStore.get_write_of_notMem fun op hop heq => hne ?_
    simp only [Option.mem_toList, Option.map_eq_some_iff] at hop
    obtain ⟨delta, -, rfl⟩ := hop
    exact heq.symm
  unfold endOps
  rw [OrderedStore.write_append]
  cases record with
  | true => simp
  | false => simpa using hhash

theorem get_defaultWorkspace_commit {lmdb : Lmdb} {isFullSync : Bool} {ops : Ops}
    (h : ∀ op ∈ ops, EntityKey op.1) (deltas : List Delta) (defaultWorkspace : Text)
    (record : Bool) :
    (commit lmdb isFullSync (ops ++ endOps deltas defaultWorkspace record)).get
        declarativeDefaultWorkspaceKey
      = if record then some (.text defaultWorkspace)
        else (if isFullSync then (∅ : Lmdb) else lmdb).get declarativeDefaultWorkspaceKey := by
  rw [commit, OrderedStore.write_append, get_defaultWorkspace_endOps,
    get_defaultWorkspace_of_ops h]

/-! ## When nothing is left behind -/

/-- The code returns an error for its input. -/
def Refused {α : Type} (result : Except Failure α) : Prop := ∃ err, result = .error (.err err)

/-- For deltas that keep the default workspace: an incremental sync that is
committed finds it recorded; a full sync that is committed can notify the
other workers, or LMDB has held the same before. -/
def KeepsDefault (p : Params) (node : Node) (deltas : List Delta) (isFullSync : Bool)
    (input : SyncInput) : Prop :=
  ∀ ops, syncOps p (p.env node.defaultWorkspace) node.lmdb deltas isFullSync = .ok ops →
    input.commitError = none →
    if isFullSync then
      input.notifyError = none
        ∨ commit node.lmdb true (ops ++ endOps deltas node.defaultWorkspace true) = node.lmdb
    else Recorded node

/-- For deltas that change the default workspace: nothing fails on the
way. -/
def ChangesDefault (p : Params) (node : Node) (id : Text) (deltas : List Delta)
    (isFullSync : Bool) (input : SyncInput) : Prop :=
  ¬ Refused (syncOps p (p.env id) node.lmdb deltas isFullSync)
    ∧ ∀ ops, syncOps p (p.env id) node.lmdb deltas isFullSync = .ok ops →
        input.commitError = none ∧ (isFullSync → input.notifyError = none)

def SyncKeeps (p : Params) (node : Node) (deltas : List Delta) (isFullSync : Bool)
    (input : SyncInput) : Prop :=
  match preprocessDeltas node.defaultWorkspace deltas with
  | .error _ => True
  | .ok none => KeepsDefault p node deltas isFullSync input
  | .ok (some id) => ChangesDefault p node id deltas isFullSync input

/-- A reply without anything to do needs a recorded default workspace. -/
def DoSyncKeeps (p : Params) (node : Node) (input : SyncInput) : Prop :=
  input.rpcReady → match input.reply with
    | none => Recorded node
    | some none => True
    | some (some nsDelta) =>
      match nsDelta.deltas with
      | none => True
      | some [] => Recorded node
      | some deltas => SyncKeeps p node deltas nsDelta.isFullSync input

/-- A configuration names the node's default workspace, or nothing fails on
the way. -/
def LoadKeeps (p : Params) (node : Node) (input : LoadInput) : Prop :=
  ∀ id, findWs input.entities (ofText "default") = some id →
    id = node.defaultWorkspace
      ∨ (¬ Refused (input.entities.mapM (loadOps p input id))
          ∧ ∀ ops, input.entities.mapM (loadOps p input id) = .ok ops → input.commitError = none)

section

variable {p : Params} {node : Node} {deltas : List Delta} {isFullSync : Bool} {input : SyncInput}

theorem atomic_applyDeltas_keeps :
    Atomic node (applyDeltas p node deltas false isFullSync input)
      ↔ KeepsDefault p node deltas isFullSync input := by
  unfold applyDeltas KeepsDefault
  cases hops : syncOps p (p.env node.defaultWorkspace) node.lmdb deltas isFullSync with
  | error failure =>
    cases failure with
    | err e => simp [Failure.outcome, Atomic]
    | raised => simp [Failure.outcome, Atomic]
  | ok ops =>
    have hkeys := entityKey_of_syncOps hops
    cases hcommit : input.commitError with
    | some e => simp [Atomic]
    | none =>
      cases isFullSync with
      | false =>
        simp [Atomic, Recorded, get_defaultWorkspace_commit hkeys]
      | true =>
        cases hnotify : input.notifyError with
        | none => simp [Atomic, Recorded, get_defaultWorkspace_commit hkeys]
        | some e => simp [Atomic, Node.ext_iff]

theorem atomic_applyDeltas_changes {id : Text} (hne : id ≠ node.defaultWorkspace) :
    Atomic node
        (applyDeltas p { node with defaultWorkspace := id } deltas true isFullSync input)
      ↔ ChangesDefault p node id deltas isFullSync input := by
  unfold applyDeltas ChangesDefault Refused
  cases hops : syncOps p (p.env id) node.lmdb deltas isFullSync with
  | error failure =>
    cases failure with
    | err e => simp [Failure.outcome, Atomic, Node.ext_iff, hne]
    | raised => simp [Failure.outcome, Atomic]
  | ok ops =>
    have hkeys := entityKey_of_syncOps hops
    cases hcommit : input.commitError with
    | some e => simp [Atomic, Node.ext_iff, hne]
    | none =>
      cases isFullSync with
      | false => simp [Atomic, Recorded, get_defaultWorkspace_commit hkeys]
      | true =>
        cases hnotify : input.notifyError with
        | none => simp [Atomic, Recorded, get_defaultWorkspace_commit hkeys]
        | some e => simp [Atomic, Node.ext_iff, hne]

theorem preprocessDeltas_ne {id : Text}
    (h : preprocessDeltas node.defaultWorkspace deltas = .ok (some id)) :
    id ≠ node.defaultWorkspace := by
  unfold preprocessDeltas at h
  cases hfind : (deltas.filterMap Delta.defaultWorkspace).find? fun entity =>
      entity.get (ofText "id") ≠ some (.text node.defaultWorkspace) with
  | none =>
    simp only [hfind] at h
    cases h
  | some entity =>
    have hne := List.find?_some hfind
    simp only [hfind] at h
    split at h
    · rename_i found hget
      obtain rfl : found = id := by simpa using h
      intro heq
      simp [hget, heq] at hne
    · cases h

theorem preprocessDeltas_error {failure : Failure}
    (h : preprocessDeltas node.defaultWorkspace deltas = .error failure) : failure = .raised := by
  unfold preprocessDeltas at h
  split at h
  · cases h
  · split at h
    · cases h
    · exact (Except.error.inj h).symm

theorem atomic_syncDeltas :
    Atomic node (syncDeltas p node deltas isFullSync input)
      ↔ SyncKeeps p node deltas isFullSync input := by
  unfold syncDeltas SyncKeeps
  cases hchanged : preprocessDeltas node.defaultWorkspace deltas with
  | error failure =>
    obtain rfl := preprocessDeltas_error hchanged
    exact iff_of_true trivial trivial
  | ok changed =>
    cases changed with
    | none => exact atomic_applyDeltas_keeps
    | some id => exact atomic_applyDeltas_changes (preprocessDeltas_ne hchanged)

theorem atomic_doSync : Atomic node (doSync p node input) ↔ DoSyncKeeps p node input := by
  unfold doSync DoSyncKeeps
  cases input.rpcReady with
  | false => simp [Atomic]
  | true =>
    cases input.reply with
    | none => simp [Atomic]
    | some reply =>
      cases reply with
      | none => simp [Atomic]
      | some nsDelta =>
        cases hdeltas : nsDelta.deltas with
        | none => simp [Atomic, hdeltas]
        | some deltas =>
          cases deltas with
          | nil => simp [Atomic, hdeltas]
          | cons delta rest => simpa [hdeltas] using atomic_syncDeltas

theorem atomic_loadIntoCache {input : LoadInput} :
    Atomic node (loadIntoCache p node input) ↔ LoadKeeps p node input := by
  unfold loadIntoCache LoadKeeps
  cases hfind : findWs input.entities (ofText "default") with
  | none => simp [Atomic]
  | some id =>
    cases hops : input.entities.mapM (loadOps p input id) with
    | error failure =>
      cases failure with
      | err e => simp [hops, Failure.outcome, Atomic, Node.ext_iff, Refused]
      | raised => simp [hops, Failure.outcome, Atomic, Refused]
    | ok ops =>
      cases hcommit : input.commitError with
      | some e => simp [hops, Atomic, Node.ext_iff, Refused]
      | none =>
        simp [hops, Atomic, Recorded, Refused, OrderedStore.write_append]

end

/-- A call leaves nothing behind when it fails, and the default workspace
recorded when it succeeds, exactly under these conditions. -/
theorem failed_load_changes_nothing_iff (p : Params) (node : Node) :
    (∀ input : SyncInput, Atomic node (doSync p node input) ↔ DoSyncKeeps p node input)
    ∧ ∀ input : LoadInput, Atomic node (loadIntoCache p node input) ↔ LoadKeeps p node input :=
  ⟨fun _ => atomic_doSync, fun _ => atomic_loadIntoCache⟩

/-! ## A refused sync -/

def workspaces : Schema where
  name := ofText "workspaces"
  primaryKey := [ofText "id"]
  fields := [{ name := ofText "id", reference := none, unique := false, uniqueAcrossWs := false },
    { name := ofText "name", reference := none, unique := true, uniqueAcrossWs := false }]
  workspaceable := false
  cacheKey := some [ofText "name"]
  ttl := false

/-- Two schemas; a consumer needs a username. -/
def consumerParams : Params where
  db := fun name => [workspaces, consumers].find? fun schema => schema.name = name
  sha256Hex := fun value =>
    if value = ofText "alice" then
      ofText "2bd806c97f0e00af1a1fc3328fa763a9269723c8db8fac4f93af71db186d6e90"
    else []
  processAutoFields := fun _ entity => entity
  validate := fun schema entity =>
    schema.name ≠ consumers.name || (entity.get (ofText "username")).isSome
  validatePrimaryKey := fun _ pk => (pk (ofText "id")).isSome
  transform := fun _ entity => .ok entity
  now := 0

/-- A node whose default workspace is recorded. -/
def recordedNode : Node where
  lmdb := (∅ : Lmdb).set declarativeDefaultWorkspaceKey (some (.text defaultWs))
  defaultWorkspace := defaultWs

def otherWs : Text := ofText "9a1d3c3e-6c1f-4b57-8d3c-2f0e6d9b7a55"

def consumerDelta (fields : List (Text × FieldValue)) : Delta where
  type := consumers.name
  entity := some { fields := (ofText "id", .text consumerId) :: fields, wsId := some otherWs,
                   ttl := none }
  pk := []
  wsId := .id otherWs
  version := ofText "v02_0000000000000000000000000002"

/-- The default workspace gets another id, and a consumer has no
username. -/
def refusedDeltas : List Delta :=
  [{ type := workspaces.name,
     entity := some { fields := [(ofText "id", .text otherWs),
                        (ofText "name", .text (ofText "default"))], wsId := none, ttl := none },
     pk := [], wsId := .id otherWs, version := ofText "v02_0000000000000000000000000002" },
    consumerDelta []]

/-- The sync fails and the node keeps the new default workspace; the next
one succeeds and LMDB still has the old one. -/
theorem refused_sync_changes_default_workspace :
    Recorded recordedNode
    ∧ (doSync consumerParams recordedNode (incremental refusedDeltas)).1 = .err "invalid deltas"
    ∧ (doSync consumerParams recordedNode (incremental refusedDeltas)).2.defaultWorkspace
        ≠ recordedNode.defaultWorkspace
    ∧ (doSync consumerParams
        (doSync consumerParams recordedNode (incremental refusedDeltas)).2
        (incremental [consumerDelta [(ofText "username", .text (ofText "alice"))]])).1 = .ok
    ∧ ¬ Recorded (doSync consumerParams
        (doSync consumerParams recordedNode (incremental refusedDeltas)).2
        (incremental [consumerDelta [(ofText "username", .text (ofText "alice"))]])).2 := by
  unfold Recorded
  decide +kernel

end KongGateway.Kong.Clustering.Apply

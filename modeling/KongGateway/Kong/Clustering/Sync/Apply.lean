import KongGateway.Kong.Db.Off.Each

/-!
# Apply — configuration into LMDB

`do_sync` on a data plane turns the deltas of the control plane into one
transaction; `load_into_cache` does so for a whole configuration. Reads
see the committed contents, the writes of a transaction take effect in
order at its commit.

Schema validation, defaults and transformations are parameters. The
replies of the control plane, of the commit and of the notification of the
other workers are inputs. Caches and events that tell other code about the
change are left out.
-/

namespace KongGateway.Kong.Clustering.Apply

open Bytes Db.Declarative Db.Off

/-! ## Nodes -/

/-- `kong.db`, the digest, what the schemas do with entities, and the
time. `transform` is the identity on entities without transformations. -/
structure Params where
  db : Text → Option Schema
  sha256Hex : Text → Text
  processAutoFields : Schema → Entity → Entity
  validate : Schema → Entity → Bool
  validatePrimaryKey : Schema → (Text → Option FieldValue) → Bool
  transform : Schema → Entity → Except String Entity
  now : Int

@[ext]
structure Node where
  lmdb : Lmdb
  /-- `kong.default_workspace`. -/
  defaultWorkspace : Text

def declarativeHashKey : Text := ofText "declarative_config:hash"
def declarativeDefaultWorkspaceKey : Text := ofText "declarative_config:default_workspace"
def declarativeEmptyConfigHash : Text := ofText "00000000000000000000000000000000"

/-- How a call ends: with a true value, with `nil` and an error, or by
raising an error. -/
inductive Outcome where
  | ok
  | err (message : String)
  | raised
  deriving DecidableEq, Repr

inductive Failure where
  | err (message : String)
  | raised
  deriving DecidableEq, Repr

def Failure.outcome : Failure → Outcome
  | .err message => .err message
  | .raised => .raised

/-- What a timer sees; its `ngx.ctx` has no workspace. -/
def Params.env (p : Params) (defaultWorkspace : Text) : Env where
  db := p.db
  sha256Hex := p.sha256Hex
  defaultWorkspace := defaultWorkspace
  ctxWorkspace := none

/-- An assertion, or a use of what is there. -/
def orRaise {α : Type} : Option α → Except Failure α
  | some a => .ok a
  | none => .error .raised

variable (p : Params) (env : Env) (lmdb : Lmdb)

/-! ## The DAO -/

/-- `row_to_entity` with `show_ws_id`. -/
def rowToEntity (schema : Schema) (row : Entity) : Entity :=
  if schema.workspaceable then { row with wsId := some (row.wsId.getD env.defaultWorkspace) }
  else row

/-- `DAO:select` with `show_ws_id`. -/
def daoSelect (schema : Schema) (pk : Text → Option FieldValue) (options : WorkspaceOption) :
    Except Failure (Option Entity) :=
  if p.validatePrimaryKey schema pk then
    match select env lmdb p.now schema pk options with
    | .error err => .error (.err err)
    | .ok row => .ok (row.map (rowToEntity env schema))
  else .error (.err "invalid primary key")

/-! ## Deltas -/

structure Delta where
  type : Text
  entity : Option Entity
  pk : List (Text × Text)
  wsId : WorkspaceOption
  version : Text
  deriving DecidableEq, Repr

/-- The entity of a delta for the workspace named "default". -/
def Delta.defaultWorkspace (delta : Delta) : Option Entity :=
  if delta.type = ofText "workspaces" then
    delta.entity.filter fun entity =>
      entity.get (ofText "name") = some (.text (ofText "default"))
  else none

/-- `preprocess_deltas`: the default workspace to change to. One without an
id fails the assertion. -/
def preprocessDeltas (defaultWorkspace : Text) (deltas : List Delta) :
    Except Failure (Option Text) :=
  match (deltas.filterMap Delta.defaultWorkspace).find? fun entity =>
      entity.get (ofText "id") ≠ some (.text defaultWorkspace) with
  | none => .ok none
  | some entity =>
    match entity.get (ofText "id") with
    | some (.text id) => .ok (some id)
    | _ => .error .raised

/-! ## Validation -/

/-- The first pass of `validate_deltas` over a delta: whether it is valid,
the delta with the defaults set, and the primary key for `deltas_map`. -/
def validateDelta (delta : Delta) : Except Failure (Bool × Delta × Option Text) :=
  match delta.entity with
  | none => .ok (true, delta, none)
  | some entity => do
    let schema ← orRaise (p.db delta.type)
    let wsIdOk := match entity.wsId, delta.wsId with
      | some _, _ => true
      | none, .id _ => true
      | none, _ => false
    let copy := { p.processAutoFields schema entity with wsId := none }
    let ok := p.validate schema copy
    let delta :=
      if ok then { delta with entity := some { copy with wsId := entity.wsId } } else delta
    .ok (wsIdOk && ok, delta, some (pkString schema entity.get))

/-- Whether the entity a foreign field refers to is among the deltas or, in
an incremental sync, in LMDB. -/
def referenceFound (deltasMap : List Text) (isFullSync : Bool) (wsId : Text) (item : Entity)
    (field : Field) : Except Failure Bool :=
  match field.reference, item.get field.name with
  | none, _ => .ok true
  | some _, none => .ok true
  | some _, some .null => .ok true
  | some reference, some value => do
    let schema ← orRaise (p.db reference)
    let pk := match value with
      | .foreign key => foreignGet key
      | _ => fun _ => none
    if pkString schema pk ∈ deltasMap then .ok true
    else if isFullSync then .ok false
    else
      match daoSelect p env lmdb schema pk (.id wsId) with
      | .ok found => .ok found.isSome
      | .error .raised => .error .raised
      | .error (.err _) => .ok false

/-- `validate_references_sync` for a delta. -/
def referencesFound (deltasMap : List Text) (isFullSync : Bool) (delta : Delta) :
    Except Failure Bool :=
  match delta.entity with
  | none => .ok true
  | some item => do
    let schema ← orRaise (p.db delta.type)
    let wsId := item.wsId.getD env.defaultWorkspace
    let found ← schema.fields.mapM
      (referenceFound p env lmdb deltasMap isFullSync wsId item)
    .ok (found.all id)

def validateDeltas (deltas : List Delta) (isFullSync : Bool) : Except Failure (List Delta) := do
  let checked ← deltas.mapM (validateDelta p)
  if checked.all (·.1) then
    let deltas := checked.map (·.2.1)
    let deltasMap := checked.filterMap (·.2.2)
    let found ← deltas.mapM (referencesFound p env lmdb deltasMap isFullSync)
    if found.all id then .ok deltas else .error (.err "invalid deltas")
  else .error (.err "invalid deltas")

/-! ## Transactions -/

/-- The operations that delete an entity if there is one. -/
def deleteOld (type : Text) : Option Entity → Except Failure Ops
  | none => .ok []
  | some oldEntity => orRaise (deleteEntityForTxn env type oldEntity .absent)

/-- `lmdb_update`. -/
def lmdbUpdate (delta : Delta) (entity : Entity) (isFullSync : Bool) : Except Failure Ops := do
  let schema ← orRaise (p.db delta.type)
  let oldEntity ← daoSelect p env lmdb schema entity.get .absent
  let deletes ← deleteOld env delta.type (if isFullSync then none else oldEntity)
  let inserts ← orRaise (insertEntityForTxn env delta.type entity .absent)
  .ok (deletes ++ inserts)

/-- `lmdb_delete`. -/
def lmdbDelete (delta : Delta) : Except Failure Ops := do
  let schema ← orRaise (p.db delta.type)
  let oldEntity ← daoSelect p env lmdb schema (foreignGet delta.pk) delta.wsId
  deleteOld env delta.type oldEntity

def deltaOps (isFullSync : Bool) (delta : Delta) : Except Failure Ops :=
  match delta.entity with
  | some entity => lmdbUpdate p env lmdb delta entity isFullSync
  | none => lmdbDelete p env lmdb delta

/-- The operations for the deltas, before those for the version and the
default workspace. -/
def syncOps (deltas : List Delta) (isFullSync : Bool) : Except Failure Ops := do
  let deltas ← validateDeltas p env lmdb deltas isFullSync
  let ops ← deltas.mapM (deltaOps p env lmdb isFullSync)
  .ok ops.flatten

/-- The contents at commit; a full sync drops the database first. -/
def commit (isFullSync : Bool) (ops : Ops) : Lmdb :=
  (if isFullSync then ∅ else lmdb).write ops

/-! ## do_sync -/

/-- The "default" namespace of the control plane's reply. -/
structure NsDelta where
  deltas : Option (List Delta)
  isFullSync : Bool
  deriving DecidableEq, Repr

/-- What `do_sync` gets from outside: whether RPC is ready, the reply
(`none` when the call fails, `some none` without the namespace), the error
of the commit and the one of the notification. -/
structure SyncInput where
  rpcReady : Bool
  reply : Option (Option NsDelta)
  commitError : Option String
  notifyError : Option String
  deriving DecidableEq, Repr

/-- An incremental sync whose transaction is committed. -/
def incremental (deltas : List Delta) : SyncInput where
  rpcReady := true
  reply := some (some { deltas := some deltas, isFullSync := false })
  commitError := none
  notifyError := none

/-- The operations that end the transaction. -/
def endOps (deltas : List Delta) (defaultWorkspace : Text) (record : Bool) : Ops :=
  (deltas.getLast?.map fun delta => (declarativeHashKey, some (Value.text delta.version))).toList
    ++ if record then [(declarativeDefaultWorkspaceKey, some (.text defaultWorkspace))] else []

/-- `do_sync` behind `preprocess_deltas`. -/
def applyDeltas (node : Node) (deltas : List Delta) (changed isFullSync : Bool)
    (input : SyncInput) : Outcome × Node :=
  match syncOps p (p.env node.defaultWorkspace) node.lmdb deltas isFullSync with
  | .error failure => (failure.outcome, node)
  | .ok ops =>
    match input.commitError with
    | some err => (.err ("failed to commit transaction: " ++ err), node)
    | none =>
      let node := { node with
        lmdb := commit node.lmdb isFullSync
          (ops ++ endOps deltas node.defaultWorkspace (changed || isFullSync)) }
      match isFullSync, input.notifyError with
      | true, some err => (.err err, node)
      | _, _ => (.ok, node)

/-- `do_sync` with deltas: the default workspace is replaced before
anything can fail. -/
def syncDeltas (node : Node) (deltas : List Delta) (isFullSync : Bool) (input : SyncInput) :
    Outcome × Node :=
  match preprocessDeltas node.defaultWorkspace deltas with
  | .error failure => (failure.outcome, node)
  | .ok none => applyDeltas p node deltas false isFullSync input
  | .ok (some id) =>
    applyDeltas p { node with defaultWorkspace := id } deltas true isFullSync input

def doSync (node : Node) (input : SyncInput) : Outcome × Node :=
  if input.rpcReady then
    match input.reply with
    | none => (.ok, node)
    | some none => (.err "default namespace does not exist inside params", node)
    | some (some nsDelta) =>
      match nsDelta.deltas with
      | none => (.err "sync get_delta error: deltas is null", node)
      | some [] => (.ok, node)
      | some deltas => syncDeltas p node deltas nsDelta.isFullSync input
  else (.err "rpc is not ready", node)

/-! ## load_into_cache -/

/-- A configuration: the entities of each type, the `_transform` of its
meta fields (true when absent), its hash, and the error of the commit. -/
structure LoadInput where
  entities : List (Text × List Entity)
  shouldTransform : Bool
  hash : Option Text
  commitError : Option String
  deriving DecidableEq, Repr

/-- `find_ws`; an id that is no string fails the assertions on it. -/
def findWs (entities : List (Text × List Entity)) (name : Text) : Option Text :=
  match ((entities.lookup (ofText "workspaces")).getD []).find? fun workspace =>
      workspace.get (ofText "name") = some (.text name) with
  | none => none
  | some workspace =>
    match workspace.get (ofText "id") with
    | some (.text id) => some id
    | _ => none

/-- Empty configurations have no entries other than workspaces. -/
def configIsEmpty (entities : List (Text × List Entity)) : Bool :=
  (entities.lookup (ofText "workspaces")).isSome && entities.length = 1

/-- An item as it is stored. -/
def loadItem (input : LoadInput) (schema : Schema) (defaultWorkspaceId : Text) (item : Entity) :
    Except Failure Entity :=
  let item := if !schema.workspaceable || item.wsId.isNone
    then { item with wsId := some defaultWorkspaceId } else item
  if input.shouldTransform then
    match p.transform schema item with
    | .ok item => .ok item
    | .error err => .error (.err err)
  else .ok item

/-- The operations for the items of a type. -/
def loadOps (input : LoadInput) (defaultWorkspaceId : Text) (entry : Text × List Entity) :
    Except Failure Ops :=
  match p.db entry.1 with
  | none => .error (.err ("unknown entity: " ++ toText entry.1))
  | some schema => do
    let ops ← entry.2.mapM fun item => do
      let item ← loadItem p input schema defaultWorkspaceId item
      orRaise (insertEntityForTxn (p.env defaultWorkspaceId) entry.1 item .absent)
    .ok ops.flatten

def loadHash (input : LoadInput) : Text :=
  match input.hash with
  | none => declarativeEmptyConfigHash
  | some hash =>
    if hash = [] ∨ configIsEmpty input.entities then declarativeEmptyConfigHash else hash

def loadIntoCache (node : Node) (input : LoadInput) : Outcome × Node :=
  match findWs input.entities (ofText "default") with
  | none => (.raised, node)
  | some defaultWorkspaceId =>
    let node := { node with defaultWorkspace := defaultWorkspaceId }
    match input.entities.mapM (loadOps p input defaultWorkspaceId) with
    | .error failure => (failure.outcome, node)
    | .ok ops =>
      match input.commitError with
      | some err => (.err err, node)
      | none =>
        (.ok, { node with
          lmdb := (∅ : Lmdb).write (ops.flatten
            ++ [(declarativeHashKey, some (.text (loadHash input))),
              (declarativeDefaultWorkspaceKey, some (.text defaultWorkspaceId))]) })

end KongGateway.Kong.Clustering.Apply

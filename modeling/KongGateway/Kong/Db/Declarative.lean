import KongGateway.Lib.Bytes
import KongGateway.Lib.OrderedStore

/-!
# Declarative — entities and indexes in LMDB

A node without a database keeps its configuration in LMDB. An entity is
stored under its item key, the indexes point to that key:

* `I|<entity>|<ws_id>|<pk>`: the serialized entity;
* `U|<entity>|<field>|<ws_id>|<sha256>`: an item key;
* `F|<entity>|<field>|<foreign id>|<ws_id>|<pk>`: an item key.

Of an entity the model keeps what the keys are made of and the expiry;
of a schema, what the functions here read. A value that is neither a
foreign key nor `ngx.null` is the string that `tostring` makes of it.
A serialized entity is the entity itself.
-/

namespace KongGateway.Kong.Db.Declarative

open Bytes

abbrev Text := List Byte

/-! ## Schemas and entities -/

inductive FieldValue where
  | null
  | text (s : Text)
  | foreign (key : List (Text × Text))
  deriving DecidableEq, Repr

structure Entity where
  fields : List (Text × FieldValue)
  wsId : Option Text
  /-- The time of expiry. -/
  ttl : Option Int
  deriving DecidableEq, Repr

def Entity.get (item : Entity) (name : Text) : Option FieldValue := item.fields.lookup name

/-- The fields of a foreign key. -/
def foreignGet (key : List (Text × Text)) (name : Text) : Option FieldValue :=
  (key.lookup name).map .text

structure Field where
  name : Text
  /-- The type a foreign field refers to. -/
  reference : Option Text
  unique : Bool
  uniqueAcrossWs : Bool
  deriving DecidableEq, Repr

structure Schema where
  name : Text
  primaryKey : List Text
  fields : List Field
  workspaceable : Bool
  cacheKey : Option (List Text)
  ttl : Bool
  deriving DecidableEq, Repr

/-- `kong.db`, the digest, and the workspaces a call sees:
`kong.default_workspace` and `ngx.ctx.workspace`. The sentinel that
stands for the default workspace in the init phase is replaced before a
worker reads or writes LMDB. -/
structure Env where
  db : Text → Option Schema
  sha256Hex : Text → Text
  defaultWorkspace : Text
  ctxWorkspace : Option Text

/-- `options.workspace`. -/
inductive WorkspaceOption where
  | absent
  | null
  | id (wsId : Text)
  deriving DecidableEq, Repr

def globalWorkspaceTag : Text := ofText "*"

def getWorkspaceId (env : Env) : Text := env.ctxWorkspace.getD env.defaultWorkspace

def workspaceId (env : Env) (schema : Schema) (options : WorkspaceOption) : Text :=
  if schema.workspaceable then
    match options with
    | .absent => getWorkspaceId env
    | .null => globalWorkspaceTag
    | .id wsId => if wsId = [] then getWorkspaceId env else wsId
  else env.defaultWorkspace

/-! ## Key strings -/

/-- `tostring`; a table is no part of a primary key that has one field. -/
def tostring : Option FieldValue → Text
  | none => ofText "nil"
  | some .null => ofText "userdata: NULL"
  | some (.text s) => s
  | some (.foreign _) => ofText "table"

def Schema.foreignField (schema : Schema) (name : Text) : Bool :=
  schema.fields.any fun field => field.name = name && field.reference.isSome

/-- Strings joined by a byte, as `table.concat` does. -/
def concat (sep : Byte) : List Text → Text
  | [] => []
  | [s] => s
  | s :: rest => s ++ sep :: concat sep rest

/-- A part of a composite primary key. -/
def pkPart (schema : Schema) (object : Text → Option FieldValue) (k : Text) : Text :=
  match object k with
  | none => []
  | some (.foreign key) =>
    if schema.foreignField k then (key.lookup (ofText "id")).getD [] else tostring (object k)
  | some _ => tostring (object k)

def colon : Byte := 58
def bar : Byte := 124

def pkString (schema : Schema) (object : Text → Option FieldValue) : Text :=
  match schema.primaryKey with
  | [k] => tostring (object k)
  | ks => concat colon (ks.map (pkPart schema object))

def uniqueFieldKey (env : Env) (schemaName wsId field value : Text) : Text :=
  concat bar [ofText "U", schemaName, field, wsId, env.sha256Hex value]

def foreignFieldKeyPrefix (schemaName wsId field foreignId : Text) : Text :=
  if wsId = globalWorkspaceTag then concat bar [ofText "F", schemaName, field, foreignId, []]
  else concat bar [ofText "F", schemaName, field, foreignId, wsId, []]

def foreignFieldKey (schemaName wsId field foreignId pk : Text) : Text :=
  foreignFieldKeyPrefix schemaName wsId field foreignId ++ pk

def itemKeyPrefix (schemaName wsId : Text) : Text :=
  if wsId = globalWorkspaceTag then concat bar [ofText "I", schemaName, []]
  else concat bar [ofText "I", schemaName, wsId, []]

def itemKey (schemaName wsId pk : Text) : Text := itemKeyPrefix schemaName wsId ++ pk

/-! ## Cache keys -/

def getCacheKeyValue (schema : Schema) (item : Entity) (name : Text) : Option Text :=
  match item.get name with
  | none => none
  | some .null => none
  | some (.foreign key) =>
    if schema.foreignField name then key.lookup (ofText "id") else some (tostring (item.get name))
  | some (.text s) => some s

/-- The seven values of a cache key: the name, up to five fields, the
workspace. -/
def cacheKeyValues (values : List Text) (wsId : Text) : List Text :=
  if values.length ≤ 6 then values ++ List.replicate (6 - values.length) [] ++ [wsId]
  else values.set 6 wsId

/-- `DAO:cache_key` of an entity; the primary key stands in when no field
of the cache key has a value. -/
def cacheKey (env : Env) (schema : Schema) (item : Entity) : Text :=
  let wsId := if schema.workspaceable then item.wsId.getD (getWorkspaceId env) else []
  let values := (schema.cacheKey.getD []).map (getCacheKeyValue schema item)
  let values := if values.any Option.isSome then values
    else schema.primaryKey.map (getCacheKeyValue schema item)
  concat colon (cacheKeyValues (schema.name :: values.map (·.getD [])) wsId)

/-! ## Writing entities -/

/-- A value in LMDB. -/
inductive Value where
  | item (entity : Entity)
  | text (s : Text)
  deriving DecidableEq, Repr

abbrev Lmdb := OrderedStore Text Value

/-- Operations of a transaction; `none` removes the key. -/
abbrev Ops := List (Text × Option Value)

/-- The string for a unique field; the assertion is that only foreign
fields have tables. -/
def uniqueValue (env : Env) (field : Field) : FieldValue → Option Text
  | .foreign key => do
    let reference ← field.reference
    let schema ← env.db reference
    some (pkString schema (foreignGet key))
  | value => some (tostring (some value))

def uniqueKeys (env : Env) (entityName wsId : Text) (field : Field) (value : FieldValue) :
    Option (List Text) :=
  if field.unique then
    (uniqueValue env field value).map fun s => [uniqueFieldKey env entityName wsId field.name s]
  else some []

def foreignKeys (env : Env) (entityName wsId pk : Text) (field : Field) (value : FieldValue) :
    Option (List Text) :=
  match field.reference, value with
  | none, _ => some []
  | some reference, .foreign key => do
    let schema ← env.db reference
    some [foreignFieldKey entityName wsId field.name (pkString schema (foreignGet key)) pk]
  | some _, _ => none

/-- The index keys for a field; `none` where an assertion fails. -/
def fieldKeys (env : Env) (entityName wsId pk : Text) (item : Entity) (field : Field) :
    Option (List Text) :=
  match item.get field.name with
  | none => some []
  | some .null => some []
  | some value => do
    let fieldWsId := if field.uniqueAcrossWs then env.defaultWorkspace else wsId
    let unique ← uniqueKeys env entityName fieldWsId field value
    let foreign ← foreignKeys env entityName fieldWsId pk field value
    some (unique ++ foreign)

def cacheKeyKeys (env : Env) (entityName : Text) (schema : Schema) (item : Entity) : List Text :=
  if schema.cacheKey.isSome then
    [uniqueFieldKey env entityName env.defaultWorkspace (ofText "cache_key")
      (cacheKey env schema item)]
  else []

/-- The item key and the index keys of an entity. -/
def entityKeys (env : Env) (entityName : Text) (item : Entity) (options : WorkspaceOption) :
    Option (Text × List Text) := do
  let schema ← env.db entityName
  let pk := pkString schema item.get
  let wsId := item.wsId.getD (workspaceId env schema options)
  if wsId = globalWorkspaceTag then none
  else
    let fields ← schema.fields.mapM (fieldKeys env entityName wsId pk item)
    some (itemKey entityName wsId pk, cacheKeyKeys env entityName schema item ++ fields.flatten)

/-- `_set_entity_for_txn`: the operations it adds, or `none` where it
raises an error. -/
def setEntityForTxn (env : Env) (entityName : Text) (item : Entity) (options : WorkspaceOption)
    (isDelete : Bool) : Option Ops := do
  let (itmKey, idxKeys) ← entityKeys env entityName item options
  let itmValue := if isDelete then none else some (Value.item item)
  let idxValue := if isDelete then none else some (Value.text itmKey)
  some ((itmKey, itmValue) :: idxKeys.map fun key => (key, idxValue))

def insertEntityForTxn (env : Env) (entityName : Text) (item : Entity)
    (options : WorkspaceOption) : Option Ops :=
  setEntityForTxn env entityName item options false

def deleteEntityForTxn (env : Env) (entityName : Text) (item : Entity)
    (options : WorkspaceOption) : Option Ops :=
  setEntityForTxn env entityName item options true

end KongGateway.Kong.Db.Declarative

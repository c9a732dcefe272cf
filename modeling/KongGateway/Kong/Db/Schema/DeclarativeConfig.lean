import KongGateway.Kong.Db.Declarative

/-!
# DeclarativeConfig — flattening a declarative configuration

A declarative configuration lists entities by type, and inside an entity
the entities that refer to it. `flatten` gives them ids, resolves the
references and returns them by type and primary key.

The sub-tables of a table under entity names are a list, in the order of
`known_entities` in which the passes go through them. Validation and
`process_auto_fields` are parameters; the second validation, of a copy
with ids and foreign keys filled in, is one with them. A lookup in a
table that is not there, and the concatenation of a value that is no
string, raise.
-/

namespace KongGateway.Kong.Db.DeclarativeConfig

open Bytes Declarative

/-! ## Schemas and input -/

/-- What the passes read of a field beside `Declarative.Field`. -/
structure Attributes where
  auto : Bool
  uuid : Bool
  required : Bool
  /-- `on_delete = "cascade"`. -/
  cascade : Bool
  transient : Bool
  deriving DecidableEq, Repr

/-- A schema in `all_schemas`: a primary key is made of fields that are
not foreign. -/
structure EntitySchema extends Declarative.Schema where
  endpointKey : Option Text
  attributes : Text → Attributes
  names_nodup : (fields.map Field.name).Nodup
  primaryKey_fields : ∀ k ∈ primaryKey, ∃ field ∈ fields, field.name = k ∧ field.reference = none

/-- An entity of the input, and the entities inside it by type. -/
inductive Item where
  | mk (own : Entity) (nested : List (Text × List Item))

abbrev Input := List (Text × List Item)

structure Params where
  allSchemas : List EntitySchema
  validate : Input → Bool
  /-- The validation of the copy by the full schema. -/
  validateFull : Input → Bool
  /-- The UUID generated for a key of a type. -/
  generateUuid : Text → Text → Text
  processAutoFields : Input → Option Input

inductive PathStep where
  | key (name : Text)
  | index (i : Nat)
  deriving DecidableEq, Repr

/-- An error at a place of the table of errors. -/
structure Err where
  path : List PathStep
  msg : Text
  deriving DecidableEq, Repr

/-- `nil` and errors, or an error that is raised. -/
inductive Failure where
  | errors (errs : List Err)
  | raised
  deriving DecidableEq, Repr

def orRaise {α : Type} : Option α → Except Failure α
  | some a => .ok a
  | none => .error .raised

def Params.schema (p : Params) (entity : Text) : Option EntitySchema :=
  p.allSchemas.find? fun schema => schema.name = entity

def EntitySchema.field (schema : EntitySchema) (name : Text) : Option Field :=
  schema.fields.find? fun field => field.name = name

/-- `foreign_references[entity][k]`. -/
def foreignReference (p : Params) (entity k : Text) : Option Text := do
  let schema ← p.schema entity
  let field ← schema.field k
  field.reference

/-- `foreign_children[parent][entity]`: the last field that refers to the
parent. -/
def foreignChild (p : Params) (parent entity : Text) : Option Text := do
  let schema ← p.schema entity
  let field ← schema.fields.reverse.find? fun field => field.reference = some parent
  some field.name

def wsIdFor (item : Entity) : Text := item.wsId.getD (ofText "*")

def Entity.set (item : Entity) (name : Text) (value : FieldValue) : Entity :=
  { item with fields := (name, value) :: item.fields.filter fun field => field.1 ≠ name }

/-- `Schema:extract_pk_values`. -/
def extractPkValues (schema : EntitySchema) (item : Entity) : List (Text × Text) :=
  schema.primaryKey.filterMap fun k =>
    match item.get k with
    | some (.text s) => some (k, s)
    | _ => none

/-! ## Generated ids -/

/-- The entity that a pass is inside of. -/
structure Parent where
  entity : Text
  own : Entity

/-- A name of an entity type that is a field of the parent is not a list
of entities inside it. -/
def isField (p : Params) (parent : Option Parent) (entity : Text) : Bool :=
  ((parent.bind fun parent => p.schema parent.entity).bind fun schema =>
    (schema.field entity).map fun _ => !(schema.attributes entity).transient).getD false

def parentFk (p : Params) (parent : Parent) : Except Failure (List (Text × Text)) := do
  let schema ← orRaise (p.schema parent.entity)
  .ok (extractPkValues schema parent.own)

/-- The part of a cache key for a field: `none` when there is no
identifier. A value that is neither a string nor absent adds nothing. -/
def cacheKeyPart (p : Params) (schema : EntitySchema) (parent : Option Parent) (entity : Text)
    (item : Entity) (k : Text) : Except Failure (Option (List Text)) :=
  if (schema.attributes k).auto then .ok none
  else
    match item.get k with
    | some (.text s) => .ok (some [s])
    | some _ => .ok (some [])
    | none =>
      match parent with
      | some parent =>
        if foreignChild p parent.entity entity = some k then
          return match ← parentFk p parent with
            | [(name, id)] => if name = ofText "id" then some [id] else none
            | _ => none
        else if (schema.attributes k).required then .ok none
        else .ok (some [[]])
      | none => if (schema.attributes k).required then .ok none else .ok (some [[]])

/-- The parts in order, until one is missing. -/
def cacheKeyParts (p : Params) (schema : EntitySchema) (parent : Option Parent) (entity : Text)
    (item : Entity) : List Text → Except Failure (Option (List Text))
  | [] => .ok (some [])
  | k :: ks => do
    match ← cacheKeyPart p schema parent entity item k with
    | none => .ok none
    | some part => return (← cacheKeyParts p schema parent entity item ks).map (part ++ ·)

def buildCacheKey (p : Params) (schema : EntitySchema) (parent : Option Parent) (entity : Text)
    (item : Entity) (cacheKey : List Text) : Except Failure (Option Text) :=
  return (← cacheKeyParts p schema parent entity item cacheKey).map fun parts =>
    concat colon (entity :: wsIdFor item :: parts)

/-- What an endpoint key that is not unique is extended with for a foreign
field whose entity takes it along when it is deleted. -/
def cascadeParts (p : Params) (parent : Option Parent) (item : Entity) (field : Field)
    (reference : Text) : Except Failure (List Text) :=
  match parent with
  | some parent => do
    let fk ← parentFk p parent
    let schema ← orRaise (p.schema reference)
    schema.primaryKey.mapM fun k => orRaise (fk.lookup k)
  | none =>
    match item.get field.name with
    | some (.text s) => .ok [s]
    | _ => .error .raised

def endpointKeyParts (p : Params) (schema : EntitySchema) (parent : Option Parent) (item : Entity)
    (key : Text) : Except Failure (List Text) := do
  let parts ← schema.fields.mapM fun field =>
    match field.reference with
    | some reference =>
      if (schema.attributes field.name).cascade then
        cascadeParts p parent item field reference
      else .ok []
    | none => .ok []
  return key :: parts.flatten

/-- The key made of the endpoint key. No UUID is made of `ngx.null`. -/
def endpointUuidKey (p : Params) (schema : EntitySchema) (parent : Option Parent) (item : Entity)
    (endpointKey : Text) : Except Failure (Option Text) :=
  match item.get endpointKey, schema.field endpointKey with
  | none, _ => .ok none
  | some _, none => .error .raised
  | some (.text key), some field =>
    if field.unique then .ok (some key)
    else do
      let parts ← endpointKeyParts p schema parent item key
      return some (concat colon
        (if field.uniqueAcrossWs then parts else parts ++ [wsIdFor item]))
  | some _, some field => if field.unique then .ok none else .error .raised

/-- `get_key_for_uuid_gen`: the primary key field and the key, when there
is one to generate from. -/
def getKeyForUuidGen (p : Params) (schema : EntitySchema) (parent : Option Parent) (entity : Text)
    (item : Entity) : Except Failure (Option (Text × Text)) :=
  match schema.primaryKey with
  | [pkName] =>
    if (item.get pkName).isSome || !(schema.attributes pkName).uuid then .ok none
    else
      match schema.cacheKey, schema.endpointKey with
      | some cacheKey, _ =>
        return (← buildCacheKey p schema parent entity item cacheKey).map (pkName, ·)
      | none, some endpointKey =>
        return (← endpointUuidKey p schema parent item endpointKey).map (pkName, ·)
      | none, none => .ok none
  | _ => .ok none

/-- An item with its id. -/
def generateId (p : Params) (parent : Option Parent) (entity : Text) (item : Entity) :
    Except Failure Entity := do
  let schema ← orRaise (p.schema entity)
  match ← getKeyForUuidGen p schema parent entity item with
  | some (pkName, key) => .ok (Entity.set item pkName (.text (p.generateUuid schema.name key)))
  | none => .ok item

mutual

/-- `generate_ids`: an item gets its id before the items inside it. -/
def generateIds (p : Params) (parent : Option Parent) : Input → Except Failure Input
  | [] => .ok []
  | (entity, items) :: rest => do
    let items ←
      (if isField p parent entity then .ok items else generateIdsItems p parent entity items)
    let rest ← generateIds p parent rest
    .ok ((entity, items) :: rest)

def generateIdsItems (p : Params) (parent : Option Parent) (entity : Text) :
    List Item → Except Failure (List Item)
  | [] => .ok []
  | item :: rest => do
    let item ← generateIdsItem p parent entity item
    let rest ← generateIdsItems p parent entity rest
    .ok (item :: rest)

def generateIdsItem (p : Params) (parent : Option Parent) (entity : Text) :
    Item → Except Failure Item
  | .mk own nested => do
    let own ← generateId p parent entity own
    let nested ← generateIds p (some ⟨entity, own⟩) nested
    .ok (.mk own nested)

end

/-! ## References -/

/-- An item as `populate_references` comes to it. -/
structure Visit where
  parent : Option Parent
  parentIdx : Nat
  entity : Text
  index : Nat
  own : Entity

mutual

/-- The items in the order of `populate_references`, those inside an item
before it. -/
def visits (p : Params) (parent : Option Parent) (parentIdx : Nat) : Input → List Visit
  | [] => []
  | (entity, items) :: rest =>
    (if isField p parent entity then [] else visitsItems p parent parentIdx entity 1 items)
      ++ visits p parent parentIdx rest

def visitsItems (p : Params) (parent : Option Parent) (parentIdx : Nat) (entity : Text) (i : Nat) :
    List Item → List Visit
  | [] => []
  | item :: rest =>
    visitsItem p parent parentIdx entity i item
      ++ visitsItems p parent parentIdx entity (i + 1) rest

def visitsItem (p : Params) (parent : Option Parent) (parentIdx : Nat) (entity : Text) (i : Nat) :
    Item → List Visit
  | .mk own nested =>
    visits p (some ⟨entity, own⟩) i nested ++ [⟨parent, parentIdx, entity, i, own⟩]

end

/-- A reference to be found. -/
structure Expected where
  entity : Text
  reference : Text
  wsId : Text
  key : Text
  value : FieldValue
  place : Text
  deriving DecidableEq, Repr

/-- What `populate_references` collects: `by_id` with its ids in order,
`by_key`, `expected` and `errs`. -/
structure Collected where
  ids : List (Text × Text)
  byId : Text → Text → Option Entity
  byKey : Text → Text → Text → Option Entity
  expected : List Expected
  errs : List Err

def Collected.empty : Collected where
  ids := []
  byId := fun _ _ => none
  byKey := fun _ _ _ => none
  expected := []
  errs := []

def uniquenessErrorMsg (entity key value : Text) : Text :=
  ofText "uniqueness violation: '" ++ entity ++ ofText "' entity with " ++ key
    ++ ofText " set to '" ++ value ++ ofText "' already declared"

def addError (visit : Visit) (msg : Text) : Err where
  path :=
    match visit.parent with
    | some parent =>
      [.key parent.entity, .index visit.parentIdx, .key visit.entity, .index visit.index]
    | none => [.key visit.entity, .index visit.index]
  msg := msg

/-- The workspace and the value of the endpoint key an item is found
under, if the key is unique. -/
def useKey (schema : EntitySchema) (item : Entity) : Option (Text × Text) := do
  let endpointKey ← schema.endpointKey
  let field ← schema.field endpointKey
  if field.unique then
    match item.get endpointKey with
    | some (.text key) => some (if field.uniqueAcrossWs then ofText "*" else wsIdFor item, key)
    | _ => none
  else none

/-- An item with the foreign key of the entity it is in. -/
def withParent (p : Params) (visit : Visit) : Except Failure Entity :=
  match visit.parent with
  | none => .ok visit.own
  | some parent => do
    let fk ← parentFk p parent
    let childKey ← orRaise (foreignChild p parent.entity visit.entity)
    .ok (Entity.set visit.own childKey (.foreign fk))

/-- `add_to_by_key`, with the error when the key is taken. -/
def addToByKey (schema : EntitySchema) (visit : Visit) (item : Entity) (found : Collected) :
    Bool × Collected :=
  match useKey schema visit.own with
  | none => (false, found)
  | some (wsId, key) =>
    if (found.byKey wsId visit.entity key).isSome then
      (true, { found with
        errs := found.errs ++ [addError visit
          (uniquenessErrorMsg visit.entity (schema.endpointKey.getD []) key)] })
    else
      (false, { found with
        byKey := fun ws entity k =>
          if ws = wsId ∧ entity = visit.entity ∧ k = key then some item
          else found.byKey ws entity k })

def addToById (visit : Visit) (item : Entity) (itemId : Text) (failed : Bool)
    (found : Collected) : Collected :=
  if !failed && (found.byId visit.entity itemId).isSome then
    { found with
      errs := found.errs ++ [addError visit
        (uniquenessErrorMsg visit.entity (ofText "primary key") itemId)] }
  else
    { found with
      ids := found.ids ++ [(visit.entity, itemId)]
      byId := fun entity id =>
        if entity = visit.entity ∧ id = itemId then some item else found.byId entity id }

/-- Where an error about a reference of an item stands: under its unique
endpoint key, or its id. -/
def errorPlace (schema : EntitySchema) (item : Entity) : Text :=
  match schema.endpointKey.bind fun k => (schema.field k).bind fun field =>
      if field.unique then item.get k else none with
  | some key => Declarative.tostring (some key)
  | none => pkString schema.toSchema item.get

/-- The references of an item, as they are given. -/
def expectedOf (p : Params) (schema : EntitySchema) (visit : Visit) : List Expected :=
  visit.own.fields.filterMap fun (k, value) =>
    if value = .null then none
    else (foreignReference p visit.entity k).map fun reference =>
      { entity := visit.entity, reference := reference, wsId := wsIdFor visit.own, key := k,
        value := value, place := errorPlace schema visit.own }

/-- The step of `populate_references` for an item. -/
def collect (p : Params) (found : Collected) (visit : Visit) : Except Failure Collected := do
  let schema ← orRaise (p.schema visit.entity)
  let item ← withParent p visit
  let added := addToByKey schema visit item found
  let found := addToById visit item (pkString schema.toSchema visit.own.get) added.1 added.2
  .ok { found with expected := found.expected ++ expectedOf p schema visit }

def populateReferences (p : Params) (input : Input) : Except Failure Collected :=
  (visits p none 0 input).foldlM (collect p) .empty

def findEntity (found : Collected) (wsId key entity : Text) : Option Entity :=
  (found.byKey wsId entity key).or (found.byId entity key)

/-- What a reference is looked up by; a table without an id is found
nowhere. -/
def Expected.lookupKey (expected : Expected) : Option Text :=
  match expected.value with
  | .text s => some s
  | .foreign key => key.lookup (ofText "id")
  | .null => none

def encode : FieldValue → Text
  | .text s => s
  | .null => ofText "null"
  | .foreign key =>
    ofText "\x7b" ++ concat 44 (key.map fun (name, value) =>
      ofText "\"" ++ name ++ ofText "\":\"" ++ value ++ ofText "\"") ++ ofText "\x7d"

def invalidReference (expected : Expected) : Err where
  path := [.key expected.entity, .key expected.place]
  msg := ofText "invalid reference '" ++ expected.key ++ ofText ": " ++ encode expected.value
    ++ ofText "' (no such entry in '" ++ expected.reference ++ ofText "')"

def Expected.found (found : Collected) (expected : Expected) : Bool :=
  (expected.lookupKey.bind fun key =>
    findEntity found expected.wsId key expected.reference).isSome

def referenceErrors (found : Collected) : List Err :=
  found.errs ++ (found.expected.filter fun expected => !expected.found found).map invalidReference

def validateReferences (p : Params) (input : Input) : Except Failure Collected := do
  let found ← populateReferences p input
  if referenceErrors found = [] then .ok found else .error (.errors (referenceErrors found))

/-! ## Flat entities -/

/-- The key for a unique value; a table that stands for itself has no
other like it. -/
def getUniqueKey (schema : EntitySchema) (item : Entity) (field : Field) (value : FieldValue) :
    Option Text :=
  if !schema.workspaceable || field.uniqueAcrossWs then
    match value with
    | .text s => some s
    | _ => none
  else
    match value with
    | .foreign key => some (wsIdFor item ++ colon :: ((key.lookup (ofText "id")).getD (ofText "nil")))
    | value => some (wsIdFor item ++ colon :: Declarative.tostring (some value))

def flatValue (p : Params) (found : Collected) (item : Entity) (field : Field) :
    Option FieldValue :=
  match field.reference, item.get field.name with
  | some reference, some (.text s) => do
    let entity ← findEntity found (wsIdFor item) s reference
    let schema ← p.schema reference
    some (.foreign (extractPkValues schema entity))
  | _, value => value

def flatEntry (p : Params) (found : Collected) (schema : EntitySchema) (item : Entity) : Entity where
  fields := schema.fields.filterMap fun field =>
    (flatValue p found item field).map fun value => (field.name, value)
  wsId := none
  ttl := if schema.ttl then item.ttl else none

/-- The table `uniques` of a type, and the errors. -/
structure Uniques where
  seen : List (Text × Text)
  errs : List Err

/-- The key of an error about a unique field: the endpoint key, if it is in
the flat entry by then, or the id. -/
def uniqueErrorKey (p : Params) (found : Collected) (schema : EntitySchema) (id : Text)
    (item : Entity) (field : Field) : Text :=
  let fields := schema.fields.takeWhile (fun other => other.name ≠ field.name) ++ [field]
  match schema.endpointKey.bind fun k =>
      (fields.find? fun other => other.name = k).bind (flatValue p found item) with
  | some value => Declarative.tostring (some value)
  | none => id

/-- The key of a unique field that has a value, and the value. -/
def uniqueField (p : Params) (found : Collected) (schema : EntitySchema) (item : Entity)
    (field : Field) : Option (Text × FieldValue) :=
  if field.unique then
    match flatValue p found item field with
    | none => none
    | some .null => none
    | some value => (getUniqueKey schema item field value).map fun key => (key, value)
  else none

/-- The check of a unique field. The errors of a type begin anew with each
of them; the message for a table raises. -/
def checkUnique (p : Params) (found : Collected) (schema : EntitySchema) (id : Text) (item : Entity)
    (uniques : Uniques) (field : Field) : Except Failure Uniques :=
  match uniqueField p found schema item field with
  | none => .ok uniques
  | some (key, value) =>
    if (field.name, key) ∈ uniques.seen then
      match value with
      | .text s =>
        .ok { uniques with
          errs := [{
            path := [.key schema.name, .key (uniqueErrorKey p found schema id item field)]
            msg := uniquenessErrorMsg schema.name field.name s }] }
      | _ => .error .raised
    else .ok { uniques with seen := uniques.seen ++ [(field.name, key)] }

structure Flat where
  entity : Text
  id : Text
  entry : Entity
  deriving DecidableEq, Repr

/-- An entity of a type by its id. -/
def entryOf (found : Collected) (entity id : Text) : Except Failure (Text × Entity) := do
  let item ← orRaise (found.byId entity id)
  .ok (id, item)

/-- The entities of a type, and the errors of their unique fields. -/
def flattenType (p : Params) (found : Collected) (entity : Text) :
    Except Failure (List Flat × List Err) := do
  let schema ← orRaise (p.schema entity)
  let entries ← ((found.ids.filter fun id => id.1 = entity).map Prod.snd).mapM
    (entryOf found entity)
  let uniques ← entries.foldlM
    (fun uniques entry =>
      schema.fields.foldlM (checkUnique p found schema entry.1 entry.2) uniques)
    { seen := [], errs := [] }
  .ok (entries.map fun entry =>
    { entity := entity, id := entry.1, entry := flatEntry p found schema entry.2 }, uniques.errs)

def flattenEntities (p : Params) (found : Collected) : Except Failure (List Flat) := do
  let types ← (found.ids.map Prod.fst).dedup.mapM (flattenType p found)
  if types.flatMap Prod.snd = [] then .ok (types.flatMap Prod.fst)
  else .error (.errors (types.flatMap Prod.snd))

/-- The input that `flatten` resolves: with its ids and defaults. -/
def process (p : Params) (input : Input) : Except Failure Input := do
  let input ← generateIds p none input
  orRaise (p.processAutoFields input)

/-- `flatten`; the errors of the schema are not modelled. -/
def flatten (p : Params) (input : Input) : Except Failure (List Flat) :=
  if p.validate input || p.validateFull input then do
    let processed ← process p input
    let found ← validateReferences p processed
    flattenEntities p found
  else .error (.errors [])

end KongGateway.Kong.Db.DeclarativeConfig

import KongGateway.Lib.Coroutine
import KongGateway.Lib.Keyed
import KongGateway.Lib.Numerals

/-!
# Validation — validating an entity against its schema

`validate` checks the fields of an entity one by one, then the checks over
several fields, and collects errors. The texts of errors are looked up in a
table of the module, and `validate_field` yields, so a validation is a
coroutine over that table. Validators, entity checkers and
`process_auto_fields` are functions that a schema refers to; they are
coroutines as well.
-/

namespace KongGateway.Kong.Db.SchemaValidation

open Bytes Numerals

abbrev Text := List Byte

/-! ## Texts of errors -/

/-- `validation_errors` -/
def validationErrorTexts : List (String × String) :=
  [("ERROR", "Validation error: %s"),
    ("ARRAY", "expected an array"),
    ("SET", "expected a set"),
    ("MAP", "expected a map"),
    ("RECORD", "expected a record"),
    ("STRING", "expected a string"),
    ("NUMBER", "expected a number"),
    ("BOOLEAN", "expected a boolean"),
    ("INTEGER", "expected an integer"),
    ("FUNCTION", "expected a function"),
    ("EQ", "value must be %s"),
    ("NE", "value must not be %s"),
    ("GT", "value must be greater than %s"),
    ("BETWEEN", "value should be between %d and %d"),
    ("LEN_EQ", "length must be %d"),
    ("LEN_MIN", "length must be at least %d"),
    ("LEN_MAX", "length must be at most %d"),
    ("MATCH", "invalid value: %s"),
    ("NOT_MATCH", "invalid value: %s"),
    ("MATCH_ALL", "invalid value: %s"),
    ("MATCH_NONE", "invalid value: %s"),
    ("MATCH_ANY", "invalid value: %s"),
    ("STARTS_WITH", "should start with: %s"),
    ("CONTAINS", "expected to contain: %s"),
    ("ONE_OF", "expected one of: %s"),
    ("NOT_ONE_OF", "must not be one of: %s"),
    ("IS_REGEX", "not a valid regex: %s"),
    ("TIMESTAMP", "expected a valid timestamp"),
    ("UUID", "expected a valid UUID"),
    ("VALIDATION", "failed validating: %s"),
    ("BAD_INPUT", "expected an input table"),
    ("REQUIRED", "required field missing"),
    ("NO_FOREIGN_DEFAULT", "will not generate a default value for a foreign field"),
    ("UNKNOWN", "unknown field"),
    ("IMMUTABLE", "immutable field cannot be updated"),
    ("REQUIRED_FOR_ENTITY_CHECK", "field required for entity check"),
    ("ENTITY_CHECK", "failed entity check: %s(%s)"),
    ("ENTITY_CHECK_N_FIELDS", "entity check requires %d fields"),
    ("CHECK", "entity check failed"),
    ("CONDITIONAL", "failed conditional validation given value of field '%s'"),
    ("AT_LEAST_ONE_OF", "at least one of these fields must be non-empty: %s"),
    ("CONDITIONAL_AT_LEAST_ONE_OF", "at least one of these fields must be non-empty: %s"),
    ("ONLY_ONE_OF", "exactly one of these fields must be non-empty: %s"),
    ("DISTINCT", "values of these fields must be distinct: %s"),
    ("MUTUALLY_REQUIRED", "all or none of these fields must be set: %s"),
    ("MUTUALLY_EXCLUSIVE", "only one or none of these fields must be set: %s"),
    ("MUTUALLY_EXCLUSIVE_SETS", "these sets are mutually exclusive: %s"),
    ("SCHEMA_NO_DEFINITION", "expected a definition table"),
    ("SCHEMA_NO_FIELDS", "error in schema definition: no 'fields' table"),
    ("SCHEMA_BAD_REFERENCE", "schema refers to an invalid foreign entity: %s"),
    ("SCHEMA_CANNOT_VALIDATE", "error in schema prevents from validating this field"),
    ("SCHEMA_TYPE", "invalid type: %s"),
    ("NOT_PK", "not a primary key"),
    ("MISSING_PK", "missing primary key"),
    ("SUBSCHEMA_UNKNOWN", "unknown type: %s"),
    ("SUBSCHEMA_BAD_PARENT",
      "error in definition of '%s': entities of type '%s' cannot have subschemas"),
    ("SUBSCHEMA_UNDEFINED_FIELD",
      "error in definition of '%s': %s: abstract field was not specialized"),
    ("SUBSCHEMA_BAD_TYPE",
      "error in definition of '%s': %s: cannot change type in a specialized field"),
    ("SUBSCHEMA_BAD_FIELD", "error in definition of '%s': %s: cannot create a new field"),
    ("SUBSCHEMA_ABSTRACT_FIELD",
      "error in schema definition: abstract field was not specialized"),
    ("TRANSFORMATION_ERROR", "transformation failed: %s"),
    ("JSON_ENCODE_ERROR", "value could not be JSON-encoded: %s"),
    ("JSON_DECODE_ERROR", "value could not be JSON-decoded: %s"),
    ("JSON_SCHEMA_ERROR", "value failed JSON-schema validation: %s"),
    ("JSON_PARENT_KEY_MISSING",
      "validation of %s depends on the parent attribute %s, but it is not set"),
    ("JSON_SCHEMA_NOT_FOUND", "mandatory json schema for field (%s) not found")]

/-- The table of texts; an entry may be missing. -/
abbrev Messages := Text → Option Text

def validationErrors : Messages := fun key =>
  (validationErrorTexts.find? fun entry => ofText entry.1 = key).map fun entry => ofText entry.2

/-- A validation; raised errors are texts. -/
abbrev Validation := Coroutine Text (Option Text) Text

/-- `validation_errors[key]` -/
def lookup (key : Text) : Validation (Option Text) := .look key .done

/-- `validation_errors.KEY`, where a missing entry is indexed or passed on. -/
def message (key : String) : Validation Text :=
  .look (ofText key) fun
    | some text => .done text
    | none => .raise (ofText "attempt to index a nil value")

/-- `fmt:format(...)` with `%s`, `%d` and `%%`; none for a missing argument. -/
def format : Text → List Text → Option Text
  | [], _ => some []
  | c :: rest, args =>
    if c = 37 then
      match rest, args with
      | d :: rest, args =>
        if d = 37 then (format rest args).map (37 :: ·)
        else
          match args with
          | arg :: args => (format rest args).map (arg ++ ·)
          | [] => none
      | [], _ => none
    else (format rest args).map (c :: ·)

def formatted (fmt : Text) (args : List Text) : Validation Text :=
  match format fmt args with
  | some text => .done text
  | none => .raise (ofText "bad argument to 'format' (no value)")

/-- `validation_errors.KEY:format(...)` -/
def messageWith (key : String) (args : List Text) : Validation Text := do
  formatted (← message key) args

/-! ## Values and errors -/

/-- Values of a request, as decoded from JSON. An array that has been given
entries with names is `mixed`. -/
inductive Value where
  | null
  | bool (b : Bool)
  | num (n : ℚ)
  | str (s : Text)
  | array (items : List Value)
  | object (entries : List (Text × Value))
  | mixed (items : List Value) (entries : List (Text × Value))

/-- A key of a table. -/
inductive Key where
  | name (text : Text)
  | index (i : Nat)
  deriving DecidableEq

/-- An error: a text, or a table of errors. -/
inductive Err where
  | text (t : Text)
  | table (entries : List (Key × Err))

abbrev Errors := List (Key × Err)

namespace Value

def isNull : Value → Bool
  | null => true
  | _ => false

/-- `is_sequence` -/
def isSequence : Value → Bool
  | array _ | object [] | mixed _ [] => true
  | _ => false

def items : Value → List Value
  | array items | mixed items _ => items
  | _ => []

/-- Whether a value is a table. -/
def isTable : Value → Bool
  | array _ | object _ | mixed .. => true
  | _ => false

/-- The entry of a table under a name. -/
def entry : Value → Text → Option Value
  | object entries, name | mixed _ entries, name => entries.lookup name
  | _, _ => none

def itemEntries (items : List Value) : List (Key × Value) :=
  items.zipIdx.map fun item => (.index (item.2 + 1), item.1)

def namedEntries (entries : List (Text × Value)) : List (Key × Value) :=
  entries.map fun entry => (.name entry.1, entry.2)

/-- The entries of a table. -/
def entries : Value → Option (List (Key × Value))
  | array items => some (itemEntries items)
  | object entries => some (namedEntries entries)
  | mixed items entries => some (itemEntries items ++ namedEntries entries)
  | _ => none

/-- `is_nonempty` -/
def isNonempty : Option Value → Bool
  | none | some null | some (array []) | some (object []) | some (mixed [] []) | some (str []) =>
    false
  | some _ => true

end Value

namespace Key

/-- `tostring(k)` -/
def toText : Key → Text
  | name text => text
  | index i => decimal i

end Key

def typeName : Value → Text
  | .null => ofText "userdata"
  | .bool _ => ofText "boolean"
  | .num _ => ofText "number"
  | .str _ => ofText "string"
  | .array _ | .object _ | .mixed .. => ofText "table"

/-- `tbl[name]`. A string has the functions of the module string as its
entries, which no field is named after. -/
def indexed (value : Value) (name : Text) : Validation (Option Value) :=
  match value with
  | .object _ | .mixed .. | .array _ | .str _ => .done (value.entry name)
  | value => .raise (ofText "attempt to index a " ++ typeName value ++ ofText " value")

/-- `get_field`, with the parts of a name between its dots. -/
def getField : Option Value → List Text → Validation (Option Value)
  | none, _ | some .null, _ => .done none
  | some value, [] => .done (some value)
  | some value, [name] => indexed value name
  | some value, hd :: tl => do getField (← indexed value hd) tl

/-- The parts of a field name. -/
def parts (name : Text) : List Text := name.splitOn 46

def Errors.get (errors : Errors) (key : Key) : Option Err := List.lookup key errors

def Errors.set (errors : Errors) (key : Key) (err : Err) : Errors :=
  if errors.any fun entry => entry.1 = key then
    errors.map fun entry => if entry.1 = key then (key, err) else entry
  else errors ++ [(key, err)]

/-- `set_field` on a table of errors. -/
def setField : Errors → List Text → Err → Validation Errors
  | errors, [], _ => .done errors
  | errors, [name], err => .done (errors.set (.name name) err)
  | errors, hd :: tl, err =>
    match errors.get (.name hd) with
    | none => do
      let subtbl ← setField [] tl err
      return errors.set (.name hd) (.table subtbl)
    | some (.table subtbl) => do
      let subtbl ← setField subtbl tl err
      return errors.set (.name hd) (.table subtbl)
    | some (.text _) => .raise (ofText "attempt to index a string value")

/-- The key of errors that are not about one field. -/
def entityKey : Text := ofText "@entity"

/-- `insert_entity_error` -/
def insertEntityError (errors : Errors) (err : Text) : Validation Errors :=
  match errors.get (.name entityKey) with
  | none => .done (errors.set (.name entityKey) (.table [(.index 1, .text err)]))
  | some (.table entries) =>
    .done (errors.set (.name entityKey)
      (.table (entries ++ [(.index (entries.length + 1), .text err)])))
  | some (.text _) =>
    .raise (ofText "bad argument #1 to 'insert' (table expected, got string)")

/-! ## The projection of an entity -/

/-- What `check_input` has under a name: a value of the entity, for a table
the table itself, or a table made for a name with dots. -/
inductive Projection where
  | value (v : Value)
  | table (entries : List (Text × Projection))

abbrev Projections := List (Text × Projection)

/-- `check_input`, and the paths of the tables that writing to it has stored
in tables of the entity. Such a table has no entries but other such tables. -/
structure CheckInput where
  entries : Projections := []
  stored : List (List Text) := []

/-- `get_field(input, ...)` -/
def getEntity (input : Value) (stored : List (List Text)) (path : List Text) :
    Validation (Option Value) :=
  if stored.contains path then .done (some (.object [])) else getField (some input) path

/-- `set_field` below the table of the entity that is at `path`. The value
that is set was read from the same place. -/
def storeBelow (input : Value) (path : List Text) (stored : List (List Text)) :
    List Text → Validation (List (List Text))
  | [] | [_] => .done stored
  | hd :: tl => do
    match ← getEntity input stored (path ++ [hd]) with
    | none => storeBelow input (path ++ [hd]) (stored ++ [path ++ [hd]]) tl
    | some value =>
      if value.isTable then storeBelow input (path ++ [hd]) stored tl
      else .raise (ofText "attempt to index a " ++ typeName value ++ ofText " value")

/-- `set_field(check_input, ...)`, for the part of `check_input` at `path`. -/
def setProjection (input : Value) (value : Option Value) (path : List Text)
    (stored : List (List Text)) :
    Projections → List Text → Validation (Projections × List (List Text))
  | entries, [] => .done (entries, stored)
  | entries, [name] => .done (OrderedTable.set entries name (value.map .value), stored)
  | entries, hd :: tl =>
    match entries.lookup hd with
    | none => do
      let subtbl ← setProjection input value (path ++ [hd]) stored [] tl
      return (OrderedTable.set entries hd (some (.table subtbl.1)), subtbl.2)
    | some (.table subtbl) => do
      let subtbl ← setProjection input value (path ++ [hd]) stored subtbl tl
      return (OrderedTable.set entries hd (some (.table subtbl.1)), subtbl.2)
    | some (.value v) =>
      if v.isTable then do
        let stored ← storeBelow input (path ++ [hd]) stored tl
        return (entries, stored)
      else .raise (ofText "attempt to index a " ++ typeName v ++ ofText " value")

mutual

/-- A projection as a value. -/
def Projection.toValue : Projection → Value
  | .value v => v
  | .table entries => .object (Projections.toValues entries)

def Projections.toValues : List (Text × Projection) → List (Text × Value)
  | [] => []
  | (name, projection) :: rest => (name, projection.toValue) :: Projections.toValues rest

end

/-- `get_field(check_input, ...)` -/
def getProjection : Projections → List Text → Validation (Option Value)
  | _, [] => .done none
  | entries, [name] => .done ((entries.lookup name).map Projection.toValue)
  | entries, hd :: tl =>
    match entries.lookup hd with
    | none => .done none
    | some (.table subtbl) => getProjection subtbl tl
    | some (.value v) => getField (some v) tl

/-- What a checker reads of its fields. -/
def CheckInput.get (checkInput : CheckInput) (name : Text) : Validation (Option Value) :=
  getProjection checkInput.entries (parts name)

/-! ## Schemas -/

/-- What validation and `process_auto_fields` read of a field beside its
type. -/
structure Attrs where
  required : Bool := false
  nilable : Bool := false
  abstract : Bool := false
  referenceable : Bool := false
  /-- `field.eq == null` -/
  eqNull : Bool := false
  /-- `tostring(field.eq)`, when there is one that is not null -/
  eq : Option Text := none
  /-- `field.ne == null` -/
  neNull : Bool := false
  err : Option Text := none
  default : Option Value := none
  auto : Bool := false
  uuid : Bool := false
  /-- The validators of the field in the order of `validators_order`, with
  `len_min = 1` for a string that has none: none if the value is valid, else
  the error, if one is given. -/
  validators : List (Text × (Value → Validation (Option (Option Text)))) := []

/-- What a checker returns: whether the check succeeds, the error and the
error of the user, and the field with the error that it has set in the table
of errors. -/
structure CheckResult where
  ok : Bool
  err : Option Text := none
  err2 : Option Text := none
  report : Option (Text × Err) := none

/-- The argument of a check under one of the `field_sources`. -/
inductive SourceArg where
  | name (field : Text)
  | names (fields : List Text)
  | absent

/-- An entity check with its checker. -/
structure Check where
  name : Text
  /-- For each of `field_sources` the argument, and whether it is among the
  `required_fields` of the checker. -/
  fieldSources : Option (List (SourceArg × Bool)) := none
  /-- The argument, where it is a list of fields. -/
  arg : List Text := []
  /-- `run_with_missing_fields` and `run_with_invalid_fields` of the checker
  and of the argument. -/
  runWithMissingFields : Bool := false
  runWithInvalidFields : Bool := false
  argRunWithMissingFields : Bool := false
  argRunWithInvalidFields : Bool := false
  /-- The argument as text. -/
  data : Text := []
  fn : CheckInput → Validation CheckResult

structure Transformation where
  input : Option (List Text) := none
  needs : Option (List Text) := none

/-- An error of `self.check`. -/
inductive SelfErr where
  | text (t : Text)
  | table (entries : List (Key × Text))
  | other

mutual

/-- The definition of a field. -/
inductive Field where
  | mk (attrs : Attrs) (type : FieldType)

inductive FieldType where
  | array (elements : Field)
  | set (elements : Field)
  | map (keys values : Field)
  | record (processAutoFields : Value → Validation Value) (schema : Schema)
  | foreign (validatePrimaryKey : Option (Value → Validation (Option Err)))
      (validate : Option (Value → Validation (Option Err)))
  | integer
  | string
  | function
  | number
  | boolean
  | any
  | other (name : Text)

inductive Schema where
  | mk (fields : List (Text × Field)) (subschemaKey : Option Text)
      (subschemas : List (Text × Subschema)) (subschemaError : Option Text)
      (unvalidatedFields : List Text) (entityChecks : List Check)
      (check : Option (List (Key × Value) → Validation (Option SelfErr)))
      (transformations : List Transformation)

inductive Subschema where
  | mk (fields : List (Text × Field)) (entityChecks : List Check)
      (transformations : List Transformation)

end

/-- A function that validates the values of a field: none if the value is
valid. -/
abbrev FieldFn := Value → Validation (Option Err)

def Field.attrs : Field → Attrs
  | .mk attrs _ => attrs

def Field.type : Field → FieldType
  | .mk _ type => type

def Schema.fields : Schema → List (Text × Field)
  | .mk fields _ _ _ _ _ _ _ => fields

def Schema.entityChecks : Schema → List Check
  | .mk _ _ _ _ _ entityChecks _ _ => entityChecks

/-- `get_schema_field`, with the parts of a name. Only a record has fields. -/
def getSchemaField : List (Text × Field) → List Text → Validation (Option Field)
  | _, [] => .done none
  | fields, [name] => .done (fields.lookup name)
  | fields, hd :: tl =>
    match fields.lookup hd with
    | none => .done none
    | some (.mk _ (.record _ inner)) => getSchemaField inner.fields tl
    | some _ => .raise (ofText "attempt to index field 'fields' (a nil value)")

/-! ## Entity checks -/

def SourceArg.fields : SourceArg → List Text
  | .name field => [field]
  | .names fields => fields
  | .absent => []

/-- `fields_to_check` -/
def Check.fieldsToCheck (check : Check) : List Text :=
  match check.fieldSources with
  | some sources => sources.flatMap fun source => source.1.fields
  | none => check.arg

/-- `required_fields` -/
def Check.requiredFields (check : Check) : List Text :=
  match check.fieldSources with
  | some sources => (sources.filter fun source => source.2).flatMap fun source => source.1.fields
  | none => check.arg

/-- What the loop over the fields of a check has found. -/
structure Found where
  checkInput : CheckInput := {}
  missing : List Text := []
  allNil : Bool := true
  allOk : Bool := true
  /-- A field holds a reference, so that the check is not run. -/
  reference : Bool := false

/-- `is_reference` -/
def isReference (value : Value) : Bool :=
  match value with
  | .str s => (ofText "\x7bvault://").isPrefixOf s && s.getLast? = some 125
  | _ => false

def Field.isReferenceable : Field → Bool
  | .mk attrs .string => attrs.referenceable
  | _ => false

/-- Whether a field without a value is missing. -/
def isMissing (fields : List (Text × Field)) (check : Check) (fname : Text) : Validation Bool :=
  if !check.runWithMissingFields && !check.argRunWithMissingFields
      && check.requiredFields.contains fname then do
    let field ← getSchemaField fields (parts fname)
    return !(field.any fun field => field.attrs.nilable)
  else .done false

/-- The loop over the fields of a check. -/
def findFields (fields : List (Text × Field)) (check : Check) (input : Value) (errors : Errors) :
    List Text → Found → Validation Found
  | [], found => .done found
  | fname :: rest, found => do
    let { entries, stored } := found.checkInput
    let allOk := found.allOk && (errors.get (.name fname)).isNone
    match ← getEntity input stored (parts fname) with
    | none =>
      let isMissing ← isMissing fields check fname
      let set ← setProjection input none [] stored entries (parts fname)
      findFields fields check input errors rest
        { found with
          checkInput := ⟨set.1, set.2⟩
          allOk := allOk
          missing := if isMissing then found.missing ++ [fname] else found.missing }
    | some value =>
      let field ← getSchemaField fields (parts fname)
      if field.any Field.isReferenceable && isReference value then
        return { found with reference := true }
      else
        let set ← setProjection input (some value) [] stored entries (parts fname)
        findFields fields check input errors rest
          { found with checkInput := ⟨set.1, set.2⟩, allOk := allOk, allNil := false }

/-- The missing fields of a check are errors. -/
def setMissing : List Text → Errors → Validation Errors
  | [], errors => .done errors
  | fname :: rest, errors => do
    let text ← message "REQUIRED_FOR_ENTITY_CHECK"
    let errors ← setField errors (parts fname) (.text text)
    setMissing rest errors

/-- `name:upper()` -/
def upper (name : Text) : Text :=
  name.map fun c => if 97 ≤ c.val ∧ c.val ≤ 122 then c - 32 else c

/-- What a failed check adds to the errors. -/
def failCheck (check : Check) (result : CheckResult) (errors : Errors) : Validation Errors :=
  match result.err2 with
  | some err2 => insertEntityError errors err2
  | none => do
    let errorFmt ← lookup (upper check.name)
    match errorFmt with
    | some errorFmt =>
      let err ← formatted errorFmt [result.err.getD (ofText "nil")]
      insertEntityError errors err
    | none =>
      match result.err with
      | some err => insertEntityError errors err
      | none =>
        let err ← messageWith "ENTITY_CHECK" [check.name, check.data]
        insertEntityError errors err

/-- The error of a field that a checker sets. -/
def addReport (errors : Errors) : Option (Text × Err) → Validation Errors
  | some (fname, err) => setField errors (parts fname) err
  | none => .done errors

/-- A checker is run on its fields. -/
def runChecker (check : Check) (checkInput : CheckInput) (errors : Errors) :
    Validation Errors := do
  let result ← check.fn checkInput
  let errors ← addReport errors result.report
  if result.ok then return errors else failCheck check result errors

/-- `run_entity_check`; `stored` are the tables that checks have stored in
the entity. -/
def runEntityCheck (fields : List (Text × Field)) (check : Check) (input : Value)
    (fullCheck : Bool) (errors : Errors) (stored : List (List Text)) :
    Validation (Errors × List (List Text)) := do
  let found ← findFields fields check input errors check.fieldsToCheck
    { checkInput := { stored := stored } }
  let stored := found.checkInput.stored
  if found.reference then return (errors, stored)
  else if !found.allOk && !check.runWithInvalidFields && !check.argRunWithInvalidFields then
    return (errors, stored)
  else if found.allNil && !(check.runWithMissingFields && fullCheck) then return (errors, stored)
  else if !found.missing.isEmpty then
    let errors ← setMissing found.missing errors
    return (errors, stored)
  else
    let errors ← runChecker check found.checkInput errors
    return (errors, stored)

/-- `run_checks` -/
def runChecks (fields : List (Text × Field)) (input : Value) (fullCheck : Bool) :
    List Check → Errors → List (List Text) → Validation (Errors × List (List Text))
  | [], errors, stored => .done (errors, stored)
  | check :: rest, errors, stored => do
    let (errors, stored) ← runEntityCheck fields check input fullCheck errors stored
    runChecks fields input fullCheck rest errors stored

/-- The loop of `run_self_check` over the fields that are missing. -/
def missingFields (input : List (Key × Value)) :
    List (Text × Field) → Errors → Bool → Validation (Errors × Bool)
  | [], errors, ok => .done (errors, ok)
  | (fname, .mk attrs _) :: rest, errors, ok => do
    if (List.lookup (Key.name fname) input).isNone && !attrs.nilable then
      let err ← messageWith "REQUIRED_FOR_ENTITY_CHECK" [fname]
      missingFields input rest (errors.set (.name fname) (.text err)) false
    else missingFields input rest errors ok

/-- The errors that `self.check` has returned in a table. -/
def addSelfErrors : List (Key × Text) → Errors → Validation Errors
  | [], errors => .done errors
  | (.index _, err) :: rest, errors => do
    let errors ← insertEntityError errors err
    addSelfErrors rest errors
  | (.name name, err) :: rest, errors =>
    addSelfErrors rest (errors.set (.name name) (.text err))

/-- `run_self_check` -/
def runSelfCheck (fields : List (Text × Field))
    (check : List (Key × Value) → Validation (Option SelfErr)) (input : List (Key × Value))
    (errors : Errors) : Validation Errors := do
  let found ← missingFields input fields errors true
  if !found.2 then return found.1
  else
    match ← check input with
    | none => return found.1
    | some (.text err) => insertEntityError found.1 err
    | some (.table entries) => addSelfErrors entries found.1
    | some .other =>
      let err ← message "CHECK"
      insertEntityError found.1 err

/-! ## Transformations -/

/-- `quoted_list` -/
def quotedList (words : List Text) : Text :=
  (words.map fun word => 39 :: word ++ [39]).intersperse (ofText ", ") |>.flatten

/-- Whether one of the fields is not empty. -/
def someNonempty (read : Text → Validation (Option Value)) : List Text → Validation Bool
  | [] => .done false
  | name :: rest => do
    if Value.isNonempty (← read name) then return true else someNonempty read rest

/-- The check `at_least_one_of` of some fields. -/
def atLeastOneOf (names : List Text) : Check where
  name := ofText "at_least_one_of"
  arg := names
  runWithMissingFields := true
  runWithInvalidFields := true
  fn checkInput := do
    if ← someNonempty checkInput.get names then return { ok := true }
    else return { ok := false, err := some (quotedList names) }

/-- The number of fields that are not empty. -/
def countNonempty (read : Text → Validation (Option Value)) : List Text → Validation Nat
  | [] => .done 0
  | name :: rest => do
    let value ← read name
    let n ← countNonempty read rest
    return if Value.isNonempty value then n + 1 else n

/-- `mutually_required`: the error if there is one. -/
def mutuallyRequired (read : Text → Validation (Option Value)) (names : List Text) :
    Validation (Option Text) := do
  let n ← countNonempty read names
  return if n = 0 ∨ n = names.length then none else some (quotedList names)

/-- `value ~= rbw_value`: two tables are not the same. -/
def rawDiffers : Option Value → Option Value → Bool
  | none, none | some .null, some .null => false
  | some (.bool a), some (.bool b) => a != b
  | some (.num a), some (.num b) => a ≠ b
  | some (.str a), some (.str b) => a ≠ b
  | _, _ => true

/-- Whether one of the `needs` of a transformation has changed. -/
def needsChanged (input : Value) (rbwEntity : Option Value) : List Text → Validation Bool
  | [] => .done false
  | name :: rest =>
    match rbwEntity with
    | none => .done false
    | some rbw => do
      let value ← getField (some input) (parts name)
      let rbwValue ← getField (some rbw) (parts name)
      if rawDiffers value rbwValue then return true
      else needsChanged input rbwEntity rest

/-- Whether one of the inputs of a transformation is set. -/
def someSet (input : Value) : List Text → Validation Bool
  | [] => .done false
  | name :: rest => do
    let value ← getField (some input) (parts name)
    let more ← someSet input rest
    return Value.isNonempty value || more

/-- `run_transformation_checks` for the transformations of a schema. -/
def runTransformationChecks (input : Value) (originalInput rbwEntity : Option Value) :
    List Transformation → Errors → Validation Errors
  | [], errors => .done errors
  | transformation :: rest, errors => do
    let original := originalInput.getD input
    let inputs := transformation.input.getD []
    let needs := transformation.needs.getD []
    let isSet ← someSet original inputs
    let changed ← needsChanged original rbwEntity needs
    if changed || isSet then
      let entity := if changed then original else input
      match ← mutuallyRequired (fun name => getField (some entity) (parts name))
          (inputs ++ needs) with
      | some err =>
        let text ← messageWith "MUTUALLY_REQUIRED" [err]
        let errors ← insertEntityError errors text
        runTransformationChecks input originalInput rbwEntity rest errors
      | none =>
        let names ← match transformation.input with
          | some names => pure names
          | none => .raise (ofText "attempt to get length of a nil value")
        match ← mutuallyRequired (fun name => getField (some original) (parts name)) names with
        | some err =>
          let text ← messageWith "MUTUALLY_REQUIRED" [err]
          let errors ← insertEntityError errors text
          runTransformationChecks input originalInput rbwEntity rest errors
        | none => runTransformationChecks input originalInput rbwEntity rest errors
    else runTransformationChecks input originalInput rbwEntity rest errors

/-! ## Validating an entity -/

/-- The functions for the fields of a schema and of its subschemas. -/
structure FieldFns where
  fields : List (Text × FieldFn)
  subschemas : List (Text × List (Text × FieldFn))

/-- `get_subschema`: the name of the subschema. -/
def getSubschema (subschemaKey : Option Text) (names : List Text) (input : List (Key × Value)) :
    Option Text :=
  match subschemaKey.bind fun key => input.lookup (.name key) with
  | some (.str key) => if names.contains key then some key else none
  | some (.array keys) => keys.findSome? fun
      | .str key => if names.contains key then some key else none
      | _ => none
  | _ => none

/-- `validate_fields` -/
def validateFields (unvalidatedFields : List Text) (fns subschemaFns : List (Text × FieldFn)) :
    List (Key × Value) → Errors → Validation Errors
  | [], errors => .done errors
  | (k, v) :: rest, errors => do
    let name := k.toText
    if unvalidatedFields.contains name then
      validateFields unvalidatedFields fns subschemaFns rest errors
    else
      match fns.lookup name with
      | none =>
        let err ← message "UNKNOWN"
        validateFields unvalidatedFields fns subschemaFns rest (errors.set k (.text err))
      | some fn =>
        match ← (subschemaFns.lookup name).getD fn v with
        | some err =>
          validateFields unvalidatedFields fns subschemaFns rest (errors.set k err)
        | none => validateFields unvalidatedFields fns subschemaFns rest errors

/-- The loop of `validate` over the fields that are required. -/
def requireFields (input : List (Key × Value)) (fullCheck : Bool) :
    List (Text × Field) → Errors → Validation Errors
  | [], errors => .done errors
  | (name, .mk attrs _) :: rest, errors => do
    let absent := match input.lookup (.name name) with
      | some value => value.isNull
      | none => fullCheck
    if attrs.required && absent then
      let err ← message "REQUIRED"
      requireFields input fullCheck rest (errors.set (.name name) (.text err))
    else requireFields input fullCheck rest errors

/-- A value in an error; of a table only the first item is shown. -/
def valueText : Value → Text
  | .str key => key
  | .array (.str key :: _) => key
  | _ => ofText "nil"

/-- The value of a subschema key in an error. -/
def keyText : Value → Validation Text
  | .num n => .raise (ofText "attempt to index a " ++ typeName (.num n) ++ ofText " value")
  | .bool b => .raise (ofText "attempt to index a " ++ typeName (.bool b) ++ ofText " value")
  | key => .done (valueText key)

/-- What a validation of an entity returns: the errors, none if the entity
is valid, and the paths of the tables that it has stored in the entity. -/
structure Outcome where
  errors : Option Errors
  stored : List (List Text) := []

def Outcome.of (errors : Errors) (stored : List (List Text)) : Outcome where
  errors := if errors.isEmpty then none else some errors
  stored := stored

/-- `validate`, with the functions for the fields. -/
def validateWith (fns : FieldFns) (schema : Schema) (input : Value) (fullCheck : Bool)
    (originalInput rbwEntity : Option Value) : Validation Outcome :=
  match schema, input.entries with
  | _, none => do .raise (← message "BAD_INPUT")
  | .mk fields subschemaKey subschemas subschemaError unvalidatedFields entityChecks check
      transformations, some entries => do
    let subschema := getSubschema subschemaKey (subschemas.map Prod.fst) entries
    let key := subschemaKey.bind fun key => entries.lookup (.name key)
    if subschemaKey.isSome && (key.isNone || key.any Value.isNull) then
      let err ← message "REQUIRED"
      return { errors := some [(.name (subschemaKey.getD []), .text err)] }
    else if subschemaKey.isSome && subschema.isNone then
      let unknown ← match subschemaError with
        | some err => pure err
        | none => message "SUBSCHEMA_UNKNOWN"
      let err ← formatted unknown [← keyText (key.getD .null)]
      return { errors := some [(.name (subschemaKey.getD []), .text err)] }
    else
      let subschemaFns := (subschema.bind fun name => fns.subschemas.lookup name).getD []
      let errors ← validateFields unvalidatedFields fns.fields subschemaFns entries []
      let errors ← requireFields entries fullCheck fields errors
      let (errors, stored) ← runChecks fields input fullCheck entityChecks errors []
      match subschema.bind fun name => subschemas.lookup name with
      | some (.mk subFields subChecks subTransformations) =>
        let (errors, stored) ←
          runChecks (subFields ++ fields) input fullCheck subChecks errors stored
        let errors ← match check, fullCheck with
          | some check, true => runSelfCheck fields check entries errors
          | _, _ => pure errors
        let errors ← runTransformationChecks input originalInput rbwEntity
          (transformations ++ subTransformations) errors
        return Outcome.of errors stored
      | none =>
        let errors ← match check, fullCheck with
          | some check, true => runSelfCheck fields check entries errors
          | _, _ => pure errors
        let errors ← runTransformationChecks input originalInput rbwEntity transformations errors
        return Outcome.of errors stored

/-! ## Validating a field -/

/-- What the check of the type says: the validators are to be run, the value
is accepted as it is, or there is an error. -/
inductive TypeResult where
  | run
  | accepted
  | failed (err : Err)

def fails (key : String) : Validation TypeResult := do
  return .failed (.text (← message key))

/-- `validate_elements` -/
def validateElements (fn : FieldFn) : Nat → List Value → List (Key × Err) → Validation TypeResult
  | _, [], [] => .done .run
  | _, [], errs => .done (.failed (.table errs))
  | i, value :: rest, errs => do
    match ← fn value with
    | some err => validateElements fn (i + 1) rest (errs ++ [(.index i, err)])
    | none => validateElements fn (i + 1) rest errs

/-- A key as a value. -/
def Key.toValue : Key → Value
  | .name text => .str text
  | .index i => .num i

/-- The keys and the values of a map. -/
def validateEntries (keyFn valueFn : FieldFn) : List (Key × Value) → Validation TypeResult
  | [] => .done .run
  | (k, v) :: rest => do
    match ← keyFn k.toValue with
    | some err => return .failed err
    | none =>
      match ← valueFn v with
      | some err => return .failed err
      | none => validateEntries keyFn valueFn rest

/-- The loop over the validators of a field. -/
def runValidators (err : Option Text) (value : Value) :
    List (Text × (Value → Validation (Option (Option Text)))) → Validation (Option Err)
  | [] => .done none
  | (name, validator) :: rest => do
    match ← validator value with
    | none => runValidators err value rest
    | some given =>
      let own ← match given with
        | some given => pure given
        | none =>
          let fmt ← lookup (upper name)
          let fmt ← match fmt with
            | some fmt => pure fmt
            | none => message "VALIDATION"
          formatted fmt [valueText value]
      return some (.text (err.getD own))

/-- What is checked before and after the type of a field. -/
def checkValue (attrs : Attrs) (required : Bool) (checkType : Value → Validation TypeResult)
    (value : Value) : Validation (Option Err) := do
  if value.isNull then
    if attrs.neNull then
      let err ← match attrs.err with
        | some err => pure err
        | none => messageWith "NE" [ofText "null"]
      return some (.text err)
    else
      match attrs.eq with
      | some eq =>
        let err ← messageWith "EQ" [eq]
        return some (.text err)
      | none =>
        if required then
          let err ← message "REQUIRED"
          return some (.text err)
        else return none
  else if attrs.eqNull then
    let err ← match attrs.err with
      | some err => pure err
      | none => messageWith "EQ" [ofText "null"]
    return some (.text err)
  else if attrs.abstract then
    let err ← message "SUBSCHEMA_ABSTRACT_FIELD"
    return some (.text err)
  else
    match ← checkType value with
    | .failed err => return some err
    | .accepted => return none
    | .run => runValidators attrs.err value attrs.validators

/-- A foreign key: the errors of its primary key, or those of the value. -/
def validateForeign (validatePrimaryKey validate : Option FieldFn) (value : Value) :
    Validation TypeResult := do
  match validatePrimaryKey with
  | none => return .run
  | some validatePrimaryKey =>
    match ← validatePrimaryKey value with
    | none => return .run
    | some err =>
      match validate, value.entries with
      | some validate, some _ =>
        match ← validate value with
        | some foreignErr => return .failed foreignErr
        | none => return .failed err
      | _, _ => return .failed err

mutual

/-- `validate_field`; elements of arrays, sets and maps are required. -/
def validateField : Field → Bool → FieldFn
  | .mk attrs type, required, value =>
    .yield (checkValue attrs (attrs.required || required) (validateType type attrs) value)

def validateType : FieldType → Attrs → Value → Validation TypeResult
  | .array elements, _, value =>
    if value.isSequence then validateElements (validateField elements true) 1 value.items []
    else fails "ARRAY"
  | .set elements, _, value =>
    if value.isSequence then validateElements (validateField elements true) 1 value.items []
    else fails "SET"
  | .map keys values, _, value =>
    match value.entries with
    | some entries =>
      validateEntries (validateField keys true) (validateField values true) entries
    | none => fails "MAP"
  | .record processAutoFields schema, _, value =>
    match value.entries with
    | some _ => do
      let copy ← processAutoFields value
      match (← validateWith (schemaFns schema) schema copy true none none).errors with
      | some errors => return .failed (.table errors)
      | none => return .run
    | none => fails "RECORD"
  | .foreign validatePrimaryKey validate, _, value =>
    validateForeign validatePrimaryKey validate value
  | .integer, _, value =>
    match value with
    | .num n => if n.den = 1 then .done .run else fails "INTEGER"
    | _ => fails "INTEGER"
  | .string, attrs, value =>
    match value with
    | .str _ => .done (if attrs.referenceable && isReference value then .accepted else .run)
    | _ => fails "STRING"
  | .function, _, _ => fails "FUNCTION"
  | .number, _, value =>
    match value with
    | .num _ => .done .run
    | _ => fails "NUMBER"
  | .boolean, _, value =>
    match value with
    | .bool _ => .done .run
    | _ => fails "BOOLEAN"
  | .any, _, _ => .done .run
  | .other name, _, _ => do
    let err ← messageWith "SCHEMA_TYPE" [name]
    return .failed (.text err)

def schemaFns : Schema → FieldFns
  | .mk fields _ subschemas _ _ _ _ _ => ⟨fieldFns fields, subschemaFns subschemas⟩

def fieldFns : List (Text × Field) → List (Text × FieldFn)
  | [] => []
  | (name, field) :: rest => (name, validateField field false) :: fieldFns rest

def subschemaFns : List (Text × Subschema) → List (Text × List (Text × FieldFn))
  | [] => []
  | (name, .mk fields _ _) :: rest => (name, fieldFns fields) :: subschemaFns rest

end

theorem validateType_any (attrs : Attrs) (value : Value) :
    validateType .any attrs value = .done .run := by
  rw [validateType]

/-- `validate`: none if the entity is valid. -/
def validate (schema : Schema) (input : Value) (fullCheck : Bool)
    (originalInput rbwEntity : Option Value) : Validation (Option Errors) := do
  let outcome ← validateWith (schemaFns schema) schema input fullCheck originalInput rbwEntity
  return outcome.errors

end KongGateway.Kong.Db.SchemaValidation

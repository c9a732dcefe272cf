import KongGateway.Kong.Db.Schema.Validation

/-!
# BuiltIn — validators, entity checkers and defaults

The validators and entity checkers that come with schemas, and
`process_auto_fields` for an insert, which fills in the fields of a record
before it is validated. Patterns, regular expressions and the printing of
values are those of the language and its libraries (`Std`).
-/

namespace KongGateway.Kong.Db.SchemaValidation

open Bytes Numerals

/-- What schemas use of the language and of libraries. -/
structure Std where
  /-- `tostring` -/
  tostring : Value → Text
  /-- `%d` -/
  integer : ℚ → Text
  /-- Whether `value:match(pattern)`; none for a pattern that is malformed. -/
  stringMatch : Text → Text → Option Bool
  /-- Whether `re_match("any string", regex)` gives an error. -/
  regexError : Text → Bool
  uuid : Text
  randomString : Text
  now : ℚ
  time : Int

/-! ## Validators -/

inductive Validator where
  | between (lower upper : ℚ)
  | eq (wanted : Value)
  | ne (wanted : Value)
  | gt (limit : ℚ)
  | lenEq (n : ℚ)
  | lenMin (n : ℚ)
  | lenMax (n : ℚ)
  | match (pattern : Text)
  | isRegex
  | notMatch (pattern : Text)
  | matchAll (list : List (Text × Option Text))
  | matchNone (list : List (Text × Option Text))
  | matchAny (patterns : List Text) (err : Option Text)
  | startsWith (expected : Text)
  | oneOf (options : List Value)
  | notOneOf (options : List Value)
  | timestamp
  | uuid
  | contains (wanted : Value)
  | mutuallyExclusiveSubsets (subsets : List (List Text))
  | customValidator (fn : Value → Option (Option Text))

/-- `value == wanted` -/
def same (value wanted : Value) : Bool := !rawDiffers (some value) (some wanted)

def noValueOf (value : Value) (wanted : String) : Text :=
  ofText wanted ++ ofText " expected, got " ++ typeName value

/-- A number to be compared. -/
def asNumber : Value → Validation ℚ
  | .num n => .done n
  | value => .raise (noValueOf value "number")

/-- A text with methods. -/
def asString : Value → Validation Text
  | .str s => .done s
  | value => .raise (noValueOf value "string")

/-- `#value` -/
def lengthOf : Value → Validation Nat
  | .str s => .done s.length
  | .array items | .mixed items _ => .done items.length
  | .object _ => .done 0
  | value => .raise (noValueOf value "table")

/-- A value that is not valid, with its error. -/
def invalid (key : String) (args : List Text) : Validation (Option (Option Text)) := do
  return some (some (← messageWith key args))

section

variable (std : Std)

/-- `make_length_validator` -/
def lengthValidator (err : String) (test : ℚ → ℚ → Bool) (isMap : Bool) (value : Value) (n : ℚ) :
    Validation (Option (Option Text)) := do
  let len ← lengthOf value
  let len := if isMap then len + (value.entries.getD []).length else len
  if test len n then return none else invalid err [std.integer n]

/-- `value:match(pattern)` -/
def stringMatch (value : Value) (pattern : Text) : Validation Bool := do
  let s ← asString value
  match std.stringMatch s pattern with
  | some m => return m
  | none => .raise (ofText "malformed pattern")

/-- The loops of `match_all` and, for `wanted = false`, of `match_none`. -/
def matchEach (value : Value) (wanted : Bool) :
    List (Text × Option Text) → Validation (Option (Option Text))
  | [] => .done none
  | (pattern, err) :: rest => do
    let m ← stringMatch std value pattern
    if m = wanted then matchEach value wanted rest else return some err

/-- The loop of `match_any`. -/
def matchSome (value : Value) (err : Option Text) :
    List Text → Validation (Option (Option Text))
  | [] => .done (some err)
  | pattern :: rest => do
    let m ← stringMatch std value pattern
    if m then return none else matchSome value err rest

/-- The items of `table.concat(options, ", ")`. -/
def concatItems : List Value → Validation (List Text)
  | [] => .done []
  | .str s :: rest => do return s :: (← concatItems rest)
  | .num n :: rest => do return std.tostring (.num n) :: (← concatItems rest)
  | value :: _ => .raise (noValueOf value "string")

def concat (options : List Value) : Validation Text := do
  return ((← concatItems std options).intersperse (ofText ", ")).flatten

/-- A match of `^[0-9a-f]{8}-[0-9a-f]{4}-...$`, in any case. -/
def isUuid (s : Text) : Bool :=
  s.length = 36 ∧ s.zipIdx.all fun c =>
    if c.2 = 8 ∨ c.2 = 13 ∨ c.2 = 18 ∨ c.2 = 23 then c.1 = 45 else isHex c.1

/-- `quoted_list` of lists of texts. -/
def quotedLists (lists : List (List Text)) : Text :=
  ((lists.map fun words => 40 :: quotedList words ++ [41]).intersperse (ofText ", ")).flatten

/-- The last of the subsets that a value is in, `subset_union[val]`. -/
def subsetUnion (subsets : List (List Text)) (value : Value) : Option Nat :=
  (subsets.zipIdx.reverse.find? fun subset => subset.1.any fun s => same value (.str s)).map Prod.snd

/-- The subsets that the values are in, in order. -/
def memberOf (subsets : List (List Text)) (values : List Value) : List Nat :=
  values.foldl (fun members value =>
    match subsetUnion subsets value with
    | some i => if members.contains i then members else members ++ [i]
    | none => members) []

/-- A validator: none if the value is valid, else the error, if one is
given. `isMap` is `field.type == "map"`. -/
def Validator.run (isMap : Bool) (value : Value) : Validator → Validation (Option (Option Text))
  | .between lower upper => do
    let n ← asNumber value
    if n < lower ∨ upper < n then invalid "BETWEEN" [std.integer lower, std.integer upper]
    else return none
  | .eq wanted => do
    if same value wanted then return none
    else invalid "EQ" [if wanted.isNull then ofText "null" else std.tostring wanted]
  | .ne wanted => do
    if same value wanted then
      invalid "NE" [if wanted.isNull then ofText "null" else std.tostring value]
    else return none
  | .gt limit => do
    let n ← asNumber value
    if limit < n then return none else invalid "GT" [std.tostring (.num limit)]
  | .lenEq n => lengthValidator std "LEN_EQ" (fun len n => len = n) isMap value n
  | .lenMin n => lengthValidator std "LEN_MIN" (fun len n => n ≤ len) isMap value n
  | .lenMax n => lengthValidator std "LEN_MAX" (fun len n => len ≤ n) isMap value n
  | .match pattern => do
    let m ← stringMatch std value pattern
    if m then return none else invalid "MATCH" [std.tostring value]
  | .isRegex => do
    let s ← asString value
    return if std.regexError s then some none else none
  | .notMatch pattern => do
    let m ← stringMatch std value pattern
    if m then invalid "NOT_MATCH" [std.tostring value] else return none
  | .matchAll list => matchEach std value true list
  | .matchNone list => matchEach std value false list
  | .matchAny patterns err => matchSome std value err patterns
  | .startsWith expected => do
    let s ← asString value
    if expected.isPrefixOf s then return none else invalid "STARTS_WITH" [expected]
  | .oneOf options => do
    if options.any fun option => same value option then return none
    else
      let list ← concat std options
      invalid "ONE_OF" [list]
  | .notOneOf options => do
    if options.any fun option => same value option then
      let list ← concat std options
      invalid "NOT_ONE_OF" [list]
    else return none
  | .timestamp => do
    let n ← asNumber value
    return if 0 < n then none else some none
  | .uuid => do
    let len ← lengthOf value
    if len ≠ 36 then return some none
    else
      let s ← asString value
      return if isUuid s then none else some none
  | .contains wanted => do
    let _ ← lengthOf value
    if value.items.any fun item => same item wanted then return none
    else invalid "CONTAINS" [std.tostring wanted]
  | .mutuallyExclusiveSubsets subsets => do
    let _ ← lengthOf value
    let members := memberOf subsets value.items
    let words := members.map fun i => subsets[i]?.getD []
    if members.length ≤ 1 then return none
    else invalid "MUTUALLY_EXCLUSIVE_SETS" [quotedLists words]
  | .customValidator fn => .done (fn value)

def Validator.name : Validator → Text
  | .between .. => ofText "between"
  | .eq _ => ofText "eq"
  | .ne _ => ofText "ne"
  | .gt _ => ofText "gt"
  | .lenEq _ => ofText "len_eq"
  | .lenMin _ => ofText "len_min"
  | .lenMax _ => ofText "len_max"
  | .match _ => ofText "match"
  | .isRegex => ofText "is_regex"
  | .notMatch _ => ofText "not_match"
  | .matchAll _ => ofText "match_all"
  | .matchNone _ => ofText "match_none"
  | .matchAny .. => ofText "match_any"
  | .startsWith _ => ofText "starts_with"
  | .oneOf _ => ofText "one_of"
  | .notOneOf _ => ofText "not_one_of"
  | .timestamp => ofText "timestamp"
  | .uuid => ofText "uuid"
  | .contains _ => ofText "contains"
  | .mutuallyExclusiveSubsets _ => ofText "mutually_exclusive_subsets"
  | .customValidator _ => ofText "custom_validator"

/-- A validator among those of a field. -/
def Validator.entry (isMap : Bool) (validator : Validator) :
    Text × (Value → Validation (Option (Option Text))) :=
  (validator.name, fun value => validator.run std isMap value)

/-- `validators_order` -/
def validatorsOrder : List Text :=
  ["eq", "ne", "not_one_of", "one_of", "gt", "timestamp", "uuid", "is_regex", "between",
    "len_eq", "len_min", "len_max", "starts_with", "not_match", "match_none", "match",
    "match_all", "match_any", "contains", "custom_validator",
    "mutually_exclusive_subsets"].map ofText

/-! ## Entity checkers -/

/-- What a check says of a field in addition to its definition, which it
takes the place of. -/
structure Match where
  required : Option Bool := none
  elements : Option Field := none
  keys : Option Field := none
  values : Option Field := none
  validators : List Validator := []

def Match.eq (m : Match) : Option Value :=
  m.validators.findSome? fun
    | .eq wanted => some wanted
    | _ => none

def Match.ne (m : Match) : Option Value :=
  m.validators.findSome? fun
    | .ne wanted => some wanted
    | _ => none

/-- The type of a field with what a check says of its parts. The schema of a
record is made of the check alone, which has no fields. -/
def Match.overType (m : Match) : FieldType → FieldType
  | .array elements => .array (m.elements.getD elements)
  | .set elements => .set (m.elements.getD elements)
  | .map keys values => .map (m.keys.getD keys) (m.values.getD values)
  | .record _ schema =>
    .record (fun _ => .raise (ofText "attempt to index field 'fields' (a nil value)")) schema
  | type => type

def FieldType.isMap : FieldType → Bool
  | .map .. => true
  | _ => false

/-- The attributes of a field with those that a check gives. -/
def Match.overAttrs (m : Match) (isMap : Bool) (attrs : Attrs) : Attrs :=
  { attrs with
    required := m.required.getD attrs.required
    eqNull := (m.eq.map Value.isNull).getD attrs.eqNull
    eq := match m.eq with
      | some wanted => if wanted.isNull then none else some (std.tostring wanted)
      | none => attrs.eq
    neNull := (m.ne.map Value.isNull).getD attrs.neNull
    validators :=
      let own := m.validators.map (Validator.entry std isMap)
      validatorsOrder.filterMap fun name =>
        ((own.find? fun entry => entry.1 = name) <|>
          attrs.validators.find? fun entry => entry.1 = name) }

/-- A match with the definition of its field as `__index`. -/
def Match.over (m : Match) : Option Field → Field
  | some (.mk attrs type) => .mk (m.overAttrs std type.isMap attrs) (m.overType type)
  | none => .mk (m.overAttrs std false {}) (.other (ofText "nil"))

/-- Whether `validate_field` accepts no value. Of the metaschema alone are a
field that may be without a value and the type `any`. -/
def acceptsNil : Field → Validation Bool
  | .mk attrs type =>
    if attrs.eqNull || attrs.abstract then .done false
    else
      match type with
      | .foreign (some _) _ => .raise (ofText "attempt to index a nil value")
      | .foreign none _ | .any =>
        if attrs.validators.isEmpty then .done true
        else .raise (ofText "attempt to index a nil value")
      | _ => .done false

/-- Whether `validate_field` accepts a value. -/
def accepts (field : Field) : Option Value → Validation Bool
  | some value => do return (← validateField field false value).isNone
  | none => acceptsNil field

/-- A text of the user with `%s`, if there is one. -/
def userError (fmt : Option Text) (arg : Text) : Validation (Option Text) :=
  match fmt with
  | some fmt => do return some (← formatted fmt [arg])
  | none => .done none

structure Conditional where
  ifField : Text
  ifMatch : Match
  thenField : Text
  thenMatch : Match
  thenErr : Option Text := none

structure ConditionalAtLeastOneOf where
  ifField : Text
  ifMatch : Match
  thenAtLeastOneOf : List Text
  thenErr : Option Text := none
  elseMatch : Option Match := none
  elseThenAtLeastOneOf : Option (List Text) := none
  elseThenErr : Option Text := none

structure CustomEntityCheck where
  fieldSources : List Text
  fn : CheckInput → Bool × Option Text × Option Text
  runWithMissingFields : Bool := false
  runWithInvalidFields : Bool := false
  /-- The check, as `pl.pretty` writes it. -/
  data : Text := []

inductive EntityCheck where
  | atLeastOneOf (names : List Text)
  | conditionalAtLeastOneOf (arg : ConditionalAtLeastOneOf)
  | onlyOneOf (names : List Text)
  | distinct (names : List Text)
  | conditional (arg : Conditional)
  | customEntityCheck (arg : CustomEntityCheck)
  | mutuallyRequired (names : List Text)
  | mutuallyExclusive (names : List Text)
  | mutuallyExclusiveSets (set1 set2 : List Text)

variable (fields : List (Text × Field))

/-- `conditional` -/
def conditionalFn (arg : Conditional) (read : Text → Validation (Option Value)) :
    Validation CheckResult := do
  let ifValue ← read arg.ifField
  let thenValue := (← read arg.thenField).getD .null
  let ifType ← getSchemaField fields (parts arg.ifField)
  if !(← accepts (arg.ifMatch.over std ifType) ifValue) then return { ok := true }
  else if arg.thenMatch.required = some true ∧ thenValue.isNull then
    let err ← message "REQUIRED"
    return { ok := false, err := some arg.ifField, report := some (arg.thenField, .text err) }
  else
    let thenType ← getSchemaField fields (parts arg.thenField)
    match ← validateField (arg.thenMatch.over std thenType) false thenValue with
    | none => return { ok := true }
    | some err =>
      let thenErr ← userError arg.thenErr arg.ifField
      return { ok := false, err := some arg.ifField, err2 := thenErr,
               report := some (arg.thenField, err) }

/-- The branches of `conditional_at_least_one_of`. -/
def requireSome (read : Text → Validation (Option Value)) (names : Option (List Text))
    (err : Option Text) : Validation CheckResult := do
  match names with
  | none => .raise (ofText "attempt to get length of local 'names' (a nil value)")
  | some names =>
    if ← someNonempty read names then return { ok := true }
    else
      let err2 ← userError err (quotedList names)
      return { ok := false, err := some (quotedList names), err2 := err2 }

/-- `conditional_at_least_one_of` -/
def conditionalAtLeastOneOfFn (arg : ConditionalAtLeastOneOf)
    (read : Text → Validation (Option Value)) : Validation CheckResult := do
  match ← read arg.ifField with
  | none => return { ok := true }
  | some ifValue =>
    let ifType ← getSchemaField fields (parts arg.ifField)
    if ← accepts (arg.ifMatch.over std ifType) (some ifValue) then
      requireSome read (some arg.thenAtLeastOneOf) arg.thenErr
    else
      match arg.elseMatch with
      | none => return { ok := true }
      | some elseMatch =>
        if ← accepts (elseMatch.over std ifType) (some ifValue) then
          requireSome read arg.elseThenAtLeastOneOf arg.elseThenErr
        else return { ok := true }

/-- `distinct`: whether two of the fields have the same value. A table is
only the same as itself. -/
def hasSame (read : Text → Validation (Option Value)) :
    List Text → List (Text × Value) → Validation Bool
  | [], _ => .done false
  | name :: rest, seen => do
    match ← read name with
    | none => hasSame read rest seen
    | some value =>
      if Value.isNonempty (some value) then
        if seen.any fun entry => entry.1 = name ∨ same value entry.2 then return true
        else hasSame read rest ((name, value) :: seen)
      else hasSame read rest seen

/-- The fields that are not empty. -/
def nonemptyFields (read : Text → Validation (Option Value)) : List Text → Validation (List Text)
  | [] => .done []
  | name :: rest => do
    let value ← read name
    let more ← nonemptyFields read rest
    return if Value.isNonempty value then name :: more else more

/-- A check that fails with its list of fields. -/
def failUnless (ok : Bool) (names : List Text) : CheckResult :=
  if ok then { ok := true } else { ok := false, err := some (quotedList names) }

/-- A check of the schema with its checker, the entry of `entity_checkers`. -/
def EntityCheck.toCheck : EntityCheck → Check
  | .atLeastOneOf names => SchemaValidation.atLeastOneOf names
  | .conditionalAtLeastOneOf arg =>
    { name := ofText "conditional_at_least_one_of"
      fieldSources := some [(.name arg.ifField, false), (.names arg.thenAtLeastOneOf, false),
        ((arg.elseThenAtLeastOneOf.map SourceArg.names).getD .absent, false)]
      runWithMissingFields := true
      runWithInvalidFields := true
      fn := fun checkInput => conditionalAtLeastOneOfFn std fields arg checkInput.get }
  | .onlyOneOf names =>
    { name := ofText "only_one_of"
      arg := names
      runWithInvalidFields := true
      fn := fun checkInput => do
        let n ← countNonempty checkInput.get names
        return failUnless (n = 1) names }
  | .distinct names =>
    { name := ofText "distinct"
      arg := names
      runWithInvalidFields := true
      fn := fun checkInput => do
        let found ← hasSame checkInput.get names []
        return failUnless (!found) names }
  | .conditional arg =>
    { name := ofText "conditional"
      fieldSources := some [(.name arg.ifField, true), (.name arg.thenField, false)]
      runWithInvalidFields := true
      fn := fun checkInput => conditionalFn std fields arg checkInput.get }
  | .customEntityCheck arg =>
    { name := ofText "custom_entity_check"
      fieldSources := some [(.names arg.fieldSources, true)]
      argRunWithMissingFields := arg.runWithMissingFields
      argRunWithInvalidFields := arg.runWithInvalidFields
      data := arg.data
      fn := fun checkInput =>
        let result := arg.fn checkInput
        .done { ok := result.1, err := result.2.1, err2 := result.2.2 } }
  | .mutuallyRequired names =>
    { name := ofText "mutually_required"
      arg := names
      runWithMissingFields := true
      fn := fun checkInput => do
        let err ← SchemaValidation.mutuallyRequired checkInput.get names
        return { ok := err.isNone, err := err } }
  | .mutuallyExclusive names =>
    { name := ofText "mutually_exclusive"
      arg := names
      runWithMissingFields := true
      fn := fun checkInput => do
        let n ← countNonempty checkInput.get names
        return failUnless (n ≤ 1) names }
  | .mutuallyExclusiveSets set1 set2 =>
    { name := ofText "mutually_exclusive_sets"
      fieldSources := some [(.names set1, false), (.names set2, false)]
      runWithMissingFields := true
      fn := fun checkInput => do
        let nonempty1 ← nonemptyFields checkInput.get set1
        let nonempty2 ← nonemptyFields checkInput.get set2
        if nonempty1.isEmpty ∨ nonempty2.isEmpty then return { ok := true }
        else return { ok := false, err := some (quotedLists [nonempty1, nonempty2]) } }

/-! ## Defaults -/

/-- `data[name] = value` -/
def Value.setEntry (data : Value) (name : Text) (value : Option Value) : Value :=
  match data with
  | .object entries => .object (OrderedTable.set entries name value)
  | .array items =>
    match value with
    | some value => .mixed items [(name, value)]
    | none => .array items
  | .mixed items entries => .mixed items (OrderedTable.set entries name value)
  | data => data

/-- The values of a table, each adjusted. -/
def Value.mapTable (f : Value → Value) : Value → Value
  | .array items => .array (items.map f)
  | .object entries => .object (entries.map fun entry => (entry.1, f entry.2))
  | .mixed items entries => .mixed (items.map f) (entries.map fun entry => (entry.1, f entry.2))
  | value => value

/-- `make_set` -/
def makeSet (value : Value) : Value :=
  if value.isSequence then
    .array (value.items.foldl (fun set item =>
      if set.any (same item) then set else set ++ [item]) [])
  else value

/-- `handle_missing_field`; `empty` is an empty record with its defaults. -/
def handleMissing (attrs : Attrs) (empty value : Option Value) : Option Value :=
  match attrs.default with
  | some default => some default
  | none =>
    if attrs.nilable then value
    else if !attrs.required then some .null
    else if attrs.abstract then none
    else empty

/-- The value of a field that is `auto`. -/
def autoValue (name : Text) (attrs : Attrs) (type : FieldType) (value : Option Value) :
    Option Value :=
  if !attrs.auto then value
  else if attrs.uuid then value.orElse fun _ => some (.str std.uuid)
  else
    match type with
    | .string => value.orElse fun _ => some (.str std.randomString)
    | type =>
      if (name = ofText "created_at" ∧ (value.all Value.isNull)) ∨ name = ofText "updated_at" then
        match type with
        | .number => some (.num std.now)
        | .integer => some (.num std.time)
        | _ => value
      else value

/-- Whether a value counts as false, as nil does. -/
def isFalse : Option Value → Bool
  | none | some (.bool false) => true
  | _ => false

mutual

/-- `adjust_field_for_context` for an insert. -/
def adjustField : Field → Option Value → Option Value
  | .mk attrs type, value => if attrs.abstract then value else adjustType type attrs value

def adjustType : FieldType → Attrs → Option Value → Option Value
  | .record _ schema, attrs, value =>
    let empty := some (autoFields schema (.object []))
    let recurse := !(value.any Value.isNull) && (value.isSome || attrs.required)
    let value := if recurse ∧ isFalse value then handleMissing attrs empty value else value
    match value with
    | some value => some (if value.isTable then autoFields schema value else value)
    | none => handleMissing attrs empty none
  | .array elements, attrs, value =>
    match value with
    | some value => some (value.mapTable fun v => (adjustField elements (some v)).getD v)
    | none => handleMissing attrs none none
  | .set elements, attrs, value =>
    match value with
    | some value =>
      some ((makeSet value).mapTable fun v => (adjustField elements (some v)).getD v)
    | none => handleMissing attrs none none
  | .map _ values, attrs, value =>
    match value with
    | some value => some (value.mapTable fun v => (adjustField values (some v)).getD v)
    | none => handleMissing attrs none none
  | _, attrs, value =>
    match value with
    | some value => some value
    | none => handleMissing attrs none none

/-- `process_auto_fields` for an insert. -/
def autoFields : Schema → Value → Value
  | .mk fields _ _ _ _ _ _ _, data => autoFieldsOf fields data

def autoFieldsOf : List (Text × Field) → Value → Value
  | [], data => data
  | (name, .mk attrs type) :: rest, data =>
    let value := autoValue std name attrs type (data.entry name)
    autoFieldsOf rest (data.setEntry name (adjustField (.mk attrs type) value))

end

/-- `process_auto_fields` yields once. -/
def processAutoFields (schema : Schema) (value : Value) : Validation Value :=
  .yield (.done (autoFields std schema value))

/-- A record. -/
def recordType (schema : Schema) : FieldType := .record (processAutoFields std schema) schema

/-! ## Foreign keys -/

/-- The loop of `validate_primary_key`, which ignores other fields. -/
def primaryKeyErrors (fields : List (Text × Field)) (pk : Value) :
    List Text → Errors → Validation Errors
  | [], errors => .done errors
  | k :: rest, errors => do
    let v ← indexed pk k
    match v with
    | none | some (.bool false) =>
      let err ← message "MISSING_PK"
      primaryKeyErrors fields pk rest (errors.set (.name k) (.text err))
    | some v =>
      match fields.lookup k with
      | none => .raise (ofText "attempt to index local 'field' (a nil value)")
      | some (.mk attrs type) =>
        if (attrs.required || attrs.auto) && v.isNull then
          let err ← message "REQUIRED"
          primaryKeyErrors fields pk rest (errors.set (.name k) (.text err))
        else
          match ← validateField (.mk attrs type) false v with
          | some err => primaryKeyErrors fields pk rest (errors.set (.name k) err)
          | none => primaryKeyErrors fields pk rest errors

/-- `validate_primary_key` -/
def validatePrimaryKey (schema : Schema) (primaryKey : List Text) (pk : Value) :
    Validation (Option Err) := do
  let errors ← primaryKeyErrors schema.fields pk primaryKey []
  return if errors.isEmpty then none else some (.table errors)

/-- A foreign key. -/
def foreignType (schema : Schema) (primaryKey : List Text) : FieldType :=
  .foreign (some (validatePrimaryKey schema primaryKey)) (some fun value => do
    let errors ← validate schema value false none none
    return errors.map .table)

end

end KongGateway.Kong.Db.SchemaValidation

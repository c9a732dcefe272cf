import KongGateway.Kong.Db.Schema.Totality

/-!
# Passes — validations that return

`Passes` says of a schema and an input that validating the one against the
other never reaches a place that raises an error or stores something in the
input. It follows a validation through the fields, through records as
`process_auto_fields` leaves them, and through the checks, each with the
errors that are there when it is run.
-/

namespace KongGateway.Kong.Db.SchemaValidation

open Bytes Numerals Coroutine

/-! ## Values -/

/-- The validators that a value is given to can be run on it: all up to the
first one that does not accept it. -/
def CopesAll (std : Std) (isMap : Bool) (value : Value) :
    List (Text × (Value → Validation (Option (Option Text)))) → Prop
  | [] => True
  | entry :: rest =>
    (∃ validator : Validator, entry = validator.entry std isMap ∧ validator.Copes std value)
      ∧ ((entry.2 value).run validationErrors = .ok none → CopesAll std isMap value rest)

section

variable {std : Std} {value : Value} {err : Option Text}
  {rest : List (Text × (Value → Validation (Option (Option Text))))}

theorem Validator.hasText {validator : Validator}
    (h : ∀ lower upper, validator ≠ .between lower upper) : HasText validator.name := by
  cases validator with
  | between lower upper => exact absurd rfl (h lower upper)
  | _ => exact SchemaValidation.hasText _ (by simp [textNames, name])

theorem Validator.ne_silent {lower upper : ℚ} {isMap : Bool} :
    (Validator.run std isMap value (.between lower upper)).run validationErrors
      ≠ .ok (some none) := by
  intro hrun
  obtain ⟨n, rfl⟩ := (Validator.run_returns isMap (.between lower upper)).mp ⟨_, hrun, trivial⟩
  have hmessage := messageWith_returns "BETWEEN" 2 (by simp [arguments])
    (le_refl [std.integer lower, std.integer upper].length)
  have hreturns : Totally (Validator.run std isMap (.num n) (.between lower upper))
      fun result => result ≠ some none :=
    returns_ite.mpr ⟨fun _ => hmessage.bind fun _ _ => .done (by simp), fun _ => .done (by simp)⟩
  exact hreturns.of_run hrun rfl

theorem runValidators_cons {isMap : Bool} (validator : Validator) :
    Ends (runValidators err value (validator.entry std isMap :: rest)) ↔
      validator.Copes std value
        ∧ ((validator.run std isMap value).run validationErrors = .ok none →
          Ends (runValidators err value rest)) := by
  refine returns_bind_iff.trans (and_congr (validator.run_returns isMap)
    ⟨fun h => h none, fun h result hrun => ?_⟩)
  rcases result with _ | _ | given
  · exact h hrun
  · have htext : HasText validator.name := by
      refine validator.hasText fun lower upper heq => ?_
      rw [heq] at hrun
      exact Validator.ne_silent hrun
    simp only [SchemaValidation.lookup, returns_bind, returns_look, returns_done]
    cases hfmt : validationErrors (upper validator.name) with
    | some fmt => exact (formatted_of_hasText htext hfmt _).bind fun _ _ => .done trivial
    | none =>
      have hmessage := messageWith_returns "VALIDATION" 1 (by simp [arguments])
        (le_refl [valueText value].length)
      exact returns_bind.mpr ((returns_bind.mp hmessage).mono fun fmt hformatted =>
        hformatted.bind fun _ _ => .done trivial)
  · exact .done trivial

theorem runValidators_of_copes {isMap : Bool}
    {validators : List (Text × (Value → Validation (Option (Option Text))))}
    (h : CopesAll std isMap value validators) : Ends (runValidators err value validators) := by
  induction validators with
  | nil => exact .done trivial
  | cons entry rest ih =>
    obtain ⟨⟨validator, rfl, hcopes⟩, hrest⟩ := h
    exact (runValidators_cons validator).mpr ⟨hcopes, fun hrun => ih (hrest hrun)⟩

theorem copes_of_runValidators {isMap : Bool}
    {validators : List (Text × (Value → Validation (Option (Option Text))))}
    (hvalidators : ∀ entry ∈ validators, ∃ validator : Validator,
      entry = validator.entry std isMap)
    (h : Ends (runValidators err value validators)) : CopesAll std isMap value validators := by
  induction validators with
  | nil => trivial
  | cons entry rest ih =>
    obtain ⟨validator, rfl⟩ := hvalidators entry List.mem_cons_self
    obtain ⟨hcopes, hrest⟩ := (runValidators_cons validator).mp h
    refine ⟨⟨validator, rfl, hcopes⟩, fun hrun => ih (fun entry hentry => ?_) (hrest hrun)⟩
    exact hvalidators entry (List.mem_cons_of_mem _ hentry)

end

theorem null_returns (field : Field) (required : Bool) :
    Ends (validateField field required .null) := by
  obtain ⟨attrs, type⟩ := field
  have hne := messageWith_returns "NE" 1 (by simp [arguments]) (le_refl [ofText "null"].length)
  have heq : ∀ eq, Ends (messageWith "EQ" [eq]) :=
    fun eq => messageWith_returns "EQ" 1 (by simp [arguments]) le_rfl
  have hrequired := message_returns "REQUIRED" (by simp [messages])
  rw [validateField]
  change Ends (if attrs.neNull = true then _ else _)
  split
  · cases attrs.err with
    | some err => exact .done trivial
    | none => exact hne.bind fun _ _ => .done trivial
  · cases attrs.eq with
    | some eq => exact (heq eq).bind fun _ _ => .done trivial
    | none =>
      change Ends (if (attrs.required || required) = true then _ else _)
      split
      · exact hrequired.bind fun _ _ => .done trivial
      · exact .done trivial

theorem rejected_returns {attrs : Attrs} (h : attrs.Rejects) (type : FieldType) (required : Bool)
    (value : Value) : Ends (validateField (.mk attrs type) required value) := by
  by_cases hnull : value.isNull = true
  · cases value with
    | null => exact null_returns _ required
    | _ => cases hnull
  · have heq := messageWith_returns "EQ" 1 (by simp [arguments]) (le_refl [ofText "null"].length)
    have habstract := message_returns "SUBSCHEMA_ABSTRACT_FIELD" (by simp [messages])
    rw [validateField]
    unfold checkValue
    rw [if_neg hnull]
    change Ends (if attrs.eqNull = true then _ else _)
    split
    · cases attrs.err with
      | some err => exact .done trivial
      | none => exact heq.bind fun _ _ => .done trivial
    · rename_i hne
      rw [if_pos (h.resolve_left hne)]
      exact habstract.bind fun _ _ => .done trivial

theorem validateField_returns {attrs : Attrs} (h : ¬ attrs.Rejects) (type : FieldType)
    (required : Bool) {value : Value} (hnull : value.isNull = false) :
    Ends (validateField (.mk attrs type) required value) ↔
      Ends (validateType type attrs value)
        ∧ ((validateType type attrs value).run validationErrors = .ok .run →
          Ends (runValidators attrs.err value attrs.validators)) := by
  obtain ⟨heq, habstract⟩ := not_or.mp h
  rw [validateField]
  unfold checkValue
  rw [if_neg (by simp [hnull]), if_neg heq, if_neg habstract]
  refine returns_bind_iff.trans (and_congr_right fun _ => ⟨fun h => h .run, fun h result hrun => ?_⟩)
  cases result with
  | run => exact h hrun
  | accepted => exact .done trivial
  | failed err => exact .done trivial

/-! ## Parts of values -/

theorem validateElements_returns {fn : FieldFn} {items : List Value} (i : Nat)
    (errs : List (Key × Err)) :
    Ends (validateElements fn i items errs) ↔ ∀ item ∈ items, Ends (fn item) := by
  induction items generalizing i errs with
  | nil => cases errs <;> exact iff_of_true (.done trivial) nofun
  | cons item rest ih =>
    rw [List.forall_mem_cons]
    refine ends_bind_iff fun result => ?_
    cases result with
    | none => exact ih _ _
    | some err => exact ih _ _

/-- A key or a value of a map that is valid. -/
def Valid (field : Field) (value : Value) : Prop :=
  (validateField field true value).run validationErrors = .ok none

theorem validateEntries_cons {keys values : Field} {k : Key} {v : Value}
    {rest : List (Key × Value)} :
    Ends (validateEntries (validateField keys true) (validateField values true) ((k, v) :: rest)) ↔
      Ends (validateField keys true k.toValue)
        ∧ (Valid keys k.toValue → Ends (validateField values true v))
        ∧ (Valid keys k.toValue → Valid values v →
          Ends (validateEntries (validateField keys true) (validateField values true) rest)) := by
  refine returns_bind_iff.trans (and_congr_right fun _ => ?_)
  constructor
  · intro h
    refine ⟨fun hkey => (returns_bind_iff.mp (h none hkey)).1, fun hkey hvalue => ?_⟩
    exact (returns_bind_iff.mp (h none hkey)).2 none hvalue
  · rintro ⟨hvalue, hrest⟩ result hkey
    cases result with
    | some err => exact .done trivial
    | none =>
      refine returns_bind_iff.mpr ⟨hvalue hkey, fun result hrun => ?_⟩
      cases result with
      | some err => exact .done trivial
      | none => exact hrest hkey hrun

theorem primaryKeyField_returns {fields : List (Text × Field)} {pk v : Value} {k : Text}
    {rest : List Text} {errors : Errors} {p : Prop}
    (ih : ∀ errors, Ends (primaryKeyErrors fields pk rest errors) ↔ p) :
    Ends (match fields.lookup k with
      | none => .raise (ofText "attempt to index local 'field' (a nil value)")
      | some (.mk attrs type) =>
        if (attrs.required || attrs.auto) && v.isNull then do
          let err ← message "REQUIRED"
          primaryKeyErrors fields pk rest (errors.set (.name k) (.text err))
        else do
          match ← validateField (.mk attrs type) false v with
          | some err => primaryKeyErrors fields pk rest (errors.set (.name k) err)
          | none => primaryKeyErrors fields pk rest errors) ↔
      (∃ field, fields.lookup k = some field ∧ Ends (validateField field false v)) ∧ p := by
  rcases hlookup : fields.lookup k with _ | ⟨attrs, type⟩
  · simp
  · simp only [Option.some.injEq, exists_eq_left']
    split
    · rename_i hnull
      have hrequired := message_returns "REQUIRED" (by simp [messages])
      refine (ends_bind_iff fun text => ih _).trans ?_
      cases v with
      | null => simp [hrequired, null_returns]
      | _ => simp [Value.isNull] at hnull
    · refine ends_bind_iff fun result => ?_
      cases result with
      | none => exact ih _
      | some err => exact ih _

theorem primaryKeyErrors_returns {fields : List (Text × Field)} {pk : Value}
    {primaryKey : List Text} (errors : Errors) :
    Ends (primaryKeyErrors fields pk primaryKey errors) ↔
      ∀ k ∈ primaryKey, pk.isIndexable = true ∧ ∀ v, pk.entry k = some v →
        isFalse (some v) = false →
        ∃ field, fields.lookup k = some field ∧ Ends (validateField field false v) := by
  induction primaryKey generalizing errors with
  | nil => exact iff_of_true (.done trivial) (by simp)
  | cons k rest ih =>
    rw [List.forall_mem_cons, primaryKeyErrors]
    simp only [returns_bind, indexed_returns]
    rw [and_assoc]
    refine and_congr_right fun hpk => ?_
    have hmissing := message_returns "MISSING_PK" (by simp [messages])
    cases hv : pk.entry k with
    | none =>
      refine (ends_bind_iff fun text => ih _).trans ?_
      simp [hmissing]
    | some v =>
      cases v with
      | bool b =>
        cases b with
        | false =>
          refine (ends_bind_iff fun text => ih _).trans ?_
          simp [hmissing, isFalse]
        | true => exact (primaryKeyField_returns ih).trans (by simp [isFalse])
      | _ => exact (primaryKeyField_returns ih).trans (by simp [isFalse])

theorem fieldFns_lookup (fields : List (Text × Field)) (name : Text) :
    (fieldFns fields).lookup name
      = (fields.lookup name).map fun field => validateField field false := by
  induction fields with
  | nil => rfl
  | cons entry rest ih =>
    obtain ⟨name', field⟩ := entry
    by_cases hname : name = name'
    · rw [fieldFns, hname, List.lookup_cons_self, List.lookup_cons_self]
      rfl
    · have hne : (name == name') = false := beq_false_of_ne hname
      rw [fieldFns, List.lookup_cons, List.lookup_cons, hne]
      exact ih

theorem validateFields_returns {fields : List (Text × Field)} {unvalidatedFields : List Text}
    {entries : List (Key × Value)} (errors : Errors) :
    Ends (validateFields unvalidatedFields (fieldFns fields) [] entries errors) ↔
      ∀ entry ∈ entries, unvalidatedFields.contains entry.1.toText = false →
        ∀ field, fields.lookup entry.1.toText = some field →
        Ends (validateField field false entry.2) := by
  induction entries generalizing errors with
  | nil => exact iff_of_true (.done trivial) nofun
  | cons entry rest ih =>
    obtain ⟨k, v⟩ := entry
    rw [List.forall_mem_cons, validateFields]
    by_cases hvalidated : unvalidatedFields.contains k.toText = true
    · have hskipped : ¬ (unvalidatedFields.contains k.toText = false) := by
        rw [hvalidated]
        nofun
      rw [if_pos hvalidated, ih]
      exact ⟨fun h => ⟨fun hnot => absurd hnot hskipped, h⟩, And.right⟩
    · rw [if_neg hvalidated, fieldFns_lookup]
      rw [Bool.not_eq_true] at hvalidated
      cases hlookup : fields.lookup k.toText with
      | none =>
        have hunknown := message_returns "UNKNOWN" (by simp [messages])
        refine (ends_bind_iff fun text => ih _).trans ?_
        simp [hunknown]
      | some field =>
        refine (ends_bind_iff fun result => ?_).trans (and_congr_left' ?_)
        · cases result with
          | none => exact ih _
          | some err => exact ih _
        · exact ⟨fun h _ field' heq => by cases heq; exact h, fun h => h hvalidated field rfl⟩

theorem requireFields_returns {input : List (Key × Value)} {fullCheck : Bool}
    (fields : List (Text × Field)) (errors : Errors) :
    Ends (requireFields input fullCheck fields errors) := by
  induction fields generalizing errors with
  | nil => exact .done trivial
  | cons entry rest ih =>
    obtain ⟨name, ⟨attrs, type⟩⟩ := entry
    rw [requireFields]
    exact returns_ite.mpr ⟨fun _ => (message_returns "REQUIRED" (by simp [messages])).bind
      fun text _ => ih _, fun _ => ih _⟩

/-! ## Schemas and inputs -/

/-- A schema of fields and checks. -/
def schemaOf (std : Std) (fields : List (Text × Field)) (checks : List EntityCheck)
    (unvalidatedFields : List Text) : Schema :=
  .mk fields none [] none unvalidatedFields (checks.map (EntityCheck.toCheck std fields)) none []

/-- The errors of the fields, which are there when the checks are run. -/
def fieldErrors (fields : List (Text × Field)) (unvalidatedFields : List Text)
    (entries : List (Key × Value)) (fullCheck : Bool) : Validation Errors := do
  let errors ← validateFields unvalidatedFields (fieldFns fields) [] entries []
  requireFields entries fullCheck fields errors

/-- A record that a check has a match for, whose schema has no fields. -/
def matchedRecord (schema : Schema) : FieldType :=
  .record (fun _ => .raise (ofText "attempt to index field 'fields' (a nil value)")) schema

/-- What is validated: `entries` are what is left of a map, `checks` those
that are left when there are some errors. -/
inductive Subject where
  | field (field : Field) (value : Value)
  | type (type : FieldType) (value : Value)
  | entries (keys values : Field) (entries : List (Key × Value))
  | checks (fields : List (Text × Field)) (checks : List EntityCheck) (input : Value)
      (fullCheck : Bool) (errors : Errors)
  | schema (schema : Schema) (input : Value) (fullCheck : Bool)

/-- A type of values without parts. -/
def FieldType.isScalar : FieldType → Bool
  | .integer | .string | .function | .number | .boolean | .any | .other _ => true
  | _ => false

/-- A validation that raises no error and stores nothing in the input. What
is stored in the copy of a record that is validated (`copied`) is not. -/
inductive Passes (std : Std) : Subject → Prop
  | null {field : Field} : Passes std (.field field .null)
  | rejected {attrs : Attrs} {type : FieldType} {value : Value} (h : attrs.Rejects) :
      Passes std (.field (.mk attrs type) value)
  | field {attrs : Attrs} {type : FieldType} {value : Value}
      (htype : Passes std (.type type value))
      (hvalidators : (validateType type attrs value).run validationErrors = .ok .run →
        CopesAll std type.isMap value attrs.validators) :
      Passes std (.field (.mk attrs type) value)
  | scalar {type : FieldType} {value : Value} (h : type.isScalar = true) :
      Passes std (.type type value)
  | array {elements : Field} {value : Value}
      (h : value.isSequence = true → ∀ item ∈ value.items, Passes std (.field elements item)) :
      Passes std (.type (.array elements) value)
  | set {elements : Field} {value : Value}
      (h : value.isSequence = true → ∀ item ∈ value.items, Passes std (.field elements item)) :
      Passes std (.type (.set elements) value)
  | map {keys values : Field} {value : Value}
      (h : Passes std (.entries keys values (value.entries.getD []))) :
      Passes std (.type (.map keys values) value)
  | noEntries {keys values : Field} : Passes std (.entries keys values [])
  | entry {keys values : Field} {k : Key} {v : Value} {rest : List (Key × Value)}
      (hkey : Passes std (.field keys k.toValue))
      (hvalue : Valid keys k.toValue → Passes std (.field values v))
      (hrest : Valid keys k.toValue → Valid values v → Passes std (.entries keys values rest)) :
      Passes std (.entries keys values ((k, v) :: rest))
  | record {inner : Schema} {value : Value}
      (h : value.isTable = true → Passes std (.schema inner (autoFields std inner value) true)) :
      Passes std (.type (recordType std inner) value)
  | copied {inner : Schema} {value : Value} {outcome : Outcome}
      (hrun : (validateWith (schemaFns inner) inner (autoFields std inner value) true none
        none).run validationErrors = .ok outcome) (hstored : outcome.stored ≠ []) :
      Passes std (.type (recordType std inner) value)
  | matched {schema : Schema} {value : Value} (h : value.isTable = false) :
      Passes std (.type (matchedRecord schema) value)
  | foreign {schema : Schema} {primaryKey : List Text} {value : Value}
      (hvalue : primaryKey ≠ [] → value.isIndexable = true)
      (hfields : ∀ k ∈ primaryKey, ∀ v, value.entry k = some v → isFalse (some v) = false →
        (schema.fields.lookup k).isSome = true)
      (hkeys : ∀ k ∈ primaryKey, ∀ v, value.entry k = some v → isFalse (some v) = false →
        ∀ field, schema.fields.lookup k = some field → Passes std (.field field v))
      (hschema : value.isTable = true →
        (validatePrimaryKey schema primaryKey value).run validationErrors ≠ .ok none →
        Passes std (.schema schema value false)) :
      Passes std (.type (foreignType schema primaryKey) value)
  | noChecks {fields : List (Text × Field)} {input : Value} {fullCheck : Bool} {errors : Errors} :
      Passes std (.checks fields [] input fullCheck errors)
  | check {fields : List (Text × Field)} {check : EntityCheck} {rest : List EntityCheck}
      {input : Value} {fullCheck : Bool} {errors : Errors}
      (hsafe : check.Safe std fields input fullCheck errors)
      (hattempts : ∀ field value, check.Attempts std fields input fullCheck errors field value →
        Passes std (.field field value))
      (hrest : ∀ errors', (runEntityCheck fields (check.toCheck std fields) input fullCheck errors
          []).run validationErrors = .ok (errors', []) →
        Passes std (.checks fields rest input fullCheck errors')) :
      Passes std (.checks fields (check :: rest) input fullCheck errors)
  | schema {fields : List (Text × Field)} {checks : List EntityCheck}
      {unvalidatedFields : List Text} {input : Value} {fullCheck : Bool}
      (htable : input.isTable = true)
      (hfields : ∀ entry ∈ input.entries.getD [],
        unvalidatedFields.contains entry.1.toText = false →
        ∀ field, fields.lookup entry.1.toText = some field → Passes std (.field field entry.2))
      (hchecks : ∀ errors, (fieldErrors fields unvalidatedFields (input.entries.getD [])
          fullCheck).run validationErrors = .ok errors →
        Passes std (.checks fields checks input fullCheck errors)) :
      Passes std (.schema (schemaOf std fields checks unvalidatedFields) input fullCheck)

/-! ## Nothing is raised -/

/-- The checks leave the input as it is. -/
abbrev ChecksReturn (std : Std) (fields : List (Text × Field)) (checks : List EntityCheck)
    (input : Value) (fullCheck : Bool) (errors : Errors) : Prop :=
  Totally (runChecks fields input fullCheck (checks.map (EntityCheck.toCheck std fields)) errors [])
    fun result => result.2 = []

/-- What is said of a validation that passes. -/
def Returned (std : Std) : Subject → Prop
  | .field field value => ∀ required, Ends (validateField field required value)
  | .type type value => ∀ attrs, Ends (validateType type attrs value)
  | .entries keys values entries =>
    Ends (validateEntries (validateField keys true) (validateField values true) entries)
  | .checks fields checks input fullCheck errors =>
    ChecksReturn std fields checks input fullCheck errors
  | .schema schema input fullCheck => ∀ originalInput rbwEntity,
      Totally (validateWith (schemaFns schema) schema input fullCheck originalInput rbwEntity)
        fun outcome => outcome.stored = []

section

variable {std : Std}

theorem isTable_eq (value : Value) : value.isTable = value.entries.isSome := by
  cases value <;> rfl

theorem fails_returns (key : String) (h : key ∈ messages) : Ends (fails key) :=
  (message_returns key h).bind fun _ _ => .done trivial

theorem scalar_returned {type : FieldType} (h : type.isScalar = true) (attrs : Attrs)
    (value : Value) : Ends (validateType type attrs value) := by
  have hfails : ∀ key ∈ messages, Ends (fails key) := fails_returns
  cases type with
  | integer =>
    cases value with
    | num n =>
      exact returns_ite.mpr ⟨fun _ => .done trivial, fun _ => hfails "INTEGER" (by simp [messages])⟩
    | _ => exact hfails "INTEGER" (by simp [messages])
  | string =>
    cases value with
    | str s => exact .done trivial
    | _ => exact hfails "STRING" (by simp [messages])
  | function => exact hfails "FUNCTION" (by simp [messages])
  | number =>
    cases value with
    | num n => exact .done trivial
    | _ => exact hfails "NUMBER" (by simp [messages])
  | boolean =>
    cases value with
    | bool b => exact .done trivial
    | _ => exact hfails "BOOLEAN" (by simp [messages])
  | any => exact validateType_any attrs value ▸ .done trivial
  | other name =>
    exact (messageWith_returns "SCHEMA_TYPE" 1 (by simp [arguments]) le_rfl).bind
      fun _ _ => .done trivial
  | _ => cases h

theorem elements_returns {elements : Field} {value : Value} {key : String} (h : key ∈ messages) :
    Ends (if value.isSequence then validateElements (validateField elements true) 1 value.items []
        else fails key) ↔
      (value.isSequence = true → ∀ item ∈ value.items, Ends (validateField elements true item)) := by
  refine returns_ite.trans ⟨fun h hvalue => ?_, fun hitems => ⟨fun hvalue => ?_, fun _ => ?_⟩⟩
  · exact (validateElements_returns 1 []).mp (h.1 hvalue)
  · exact (validateElements_returns 1 []).mpr (hitems hvalue)
  · exact fails_returns key h

theorem array_returns {elements : Field} {attrs : Attrs} {value : Value} :
    Ends (validateType (.array elements) attrs value) ↔
      (value.isSequence = true → ∀ item ∈ value.items, Ends (validateField elements true item)) := by
  rw [validateType]
  exact elements_returns (by simp [messages])

theorem set_returns {elements : Field} {attrs : Attrs} {value : Value} :
    Ends (validateType (.set elements) attrs value) ↔
      (value.isSequence = true → ∀ item ∈ value.items, Ends (validateField elements true item)) := by
  rw [validateType]
  exact elements_returns (by simp [messages])

theorem map_returns {keys values : Field} {attrs : Attrs} {value : Value} :
    Ends (validateType (.map keys values) attrs value) ↔
      Ends (validateEntries (validateField keys true) (validateField values true)
        (value.entries.getD [])) := by
  rw [validateType]
  cases value.entries with
  | none => exact iff_of_true (fails_returns "MAP" (by simp [messages])) (.done trivial)
  | some entries => exact Iff.rfl

theorem record_returns {inner : Schema} {attrs : Attrs} {value : Value} :
    Ends (validateType (recordType std inner) attrs value) ↔ (value.isTable = true →
      Ends (validateWith (schemaFns inner) inner (autoFields std inner value) true none none)) := by
  unfold recordType
  rw [validateType]
  cases hentries : value.entries with
  | none =>
    rw [isTable_eq, hentries]
    exact iff_of_true (fails_returns "RECORD" (by simp [messages])) (by simp)
  | some entries =>
    rw [isTable_eq, hentries]
    simp only [processAutoFields, returns_bind, returns_yield, returns_done]
    refine ⟨fun h _ => h.mono fun _ _ => trivial, fun h => (h rfl).mono fun outcome _ => ?_⟩
    cases outcome.errors <;> exact .done trivial

theorem matched_returns {schema : Schema} {attrs : Attrs} {value : Value} :
    Ends (validateType (matchedRecord schema) attrs value) ↔ value.isTable = false := by
  unfold matchedRecord
  rw [validateType]
  rw [isTable_eq]
  cases value.entries with
  | none => exact iff_of_true (fails_returns "RECORD" (by simp [messages])) rfl
  | some entries => exact iff_of_false not_returns_raise (by simp)

theorem foreign_returns {schema : Schema} {primaryKey : List Text} {attrs : Attrs} {value : Value} :
    Ends (validateType (foreignType schema primaryKey) attrs value) ↔
      (∀ k ∈ primaryKey, value.isIndexable = true ∧ ∀ v, value.entry k = some v →
        isFalse (some v) = false →
        ∃ field, schema.fields.lookup k = some field ∧ Ends (validateField field false v))
      ∧ (value.isTable = true →
        (validatePrimaryKey schema primaryKey value).run validationErrors ≠ .ok none →
        Ends (validateWith (schemaFns schema) schema value false none none)) := by
  have hpk : Ends (validatePrimaryKey schema primaryKey value) ↔ _ :=
    (ends_bind_of_ends fun _ => .done trivial).trans (primaryKeyErrors_returns [])
  have hvalidate : Ends (validate schema value false none none) ↔
      Ends (validateWith (schemaFns schema) schema value false none none) :=
    ends_bind_of_ends fun _ => .done trivial
  unfold foreignType
  rw [validateType]
  refine returns_bind_iff.trans ((and_congr_right fun hends => ?_).trans (and_congr_left' hpk))
  obtain ⟨result, hrun, -⟩ := hends
  simp only [hrun, Except.ok.injEq, forall_eq']
  rw [isTable_eq]
  cases result with
  | none => exact iff_of_true (.done trivial) fun _ h => absurd rfl h
  | some err =>
    cases value.entries with
    | none => exact iff_of_true (.done trivial) (by simp)
    | some entries =>
      refine Iff.trans ?_ (hvalidate.trans (by simp))
      refine Iff.trans (ends_bind_of_ends fun foreignErr => ?_)
        (ends_bind_of_ends fun _ => .done trivial)
      cases foreignErr <;> exact .done trivial

/-- **Validating an entity** is validating the fields and then running the
checks. -/
theorem schema_returns {fields : List (Text × Field)} {checks : List EntityCheck}
    {unvalidatedFields : List Text} {input : Value} {fullCheck : Bool}
    (originalInput rbwEntity : Option Value) :
    Totally (validateWith (schemaFns (schemaOf std fields checks unvalidatedFields))
        (schemaOf std fields checks unvalidatedFields) input fullCheck originalInput rbwEntity)
        (fun outcome => outcome.stored = []) ↔
      input.isTable = true
        ∧ (∀ entry ∈ input.entries.getD [], unvalidatedFields.contains entry.1.toText = false →
          ∀ field, fields.lookup entry.1.toText = some field →
          Ends (validateField field false entry.2))
        ∧ ∀ errors, (fieldErrors fields unvalidatedFields (input.entries.getD [])
            fullCheck).run validationErrors = .ok errors →
          ChecksReturn std fields checks input fullCheck errors := by
  unfold schemaOf
  rw [isTable_eq]
  cases hentries : input.entries with
  | none =>
    simp only [validateWith, hentries]
    refine iff_of_false (fun h => ?_) nofun
    obtain ⟨text, -, h⟩ := returns_bind.mp h
    exact not_returns_raise h
  | some entries =>
    have hfields : Ends (fieldErrors fields unvalidatedFields entries fullCheck) ↔ _ :=
      (ends_bind_of_ends fun errors => requireFields_returns fields errors).trans
        (validateFields_returns [])
    have hrun : Totally (fieldErrors fields unvalidatedFields entries fullCheck) (fun errors =>
        ChecksReturn std fields checks input fullCheck errors) ↔ _ := returns_iff
    simp only [validateWith, hentries, schemaFns]
    rw [Option.getD_some, ← hfields, ← hrun, Option.isSome_some]
    change Totally (validateFields unvalidatedFields (fieldFns fields) [] entries [] >>= fun errors =>
      requireFields entries fullCheck fields errors >>= fun errors =>
      runChecks fields input fullCheck (checks.map (EntityCheck.toCheck std fields)) errors [] >>=
        fun result => pure (Outcome.of result.1 result.2)) _ ↔ _
    simp only [fieldErrors, returns_bind, returns_pure, Outcome.of, true_and]

theorem field_returned {attrs : Attrs} {type : FieldType} {value : Value}
    (htype : ∀ attrs, Ends (validateType type attrs value))
    (hvalidators : (validateType type attrs value).run validationErrors = .ok .run →
      CopesAll std type.isMap value attrs.validators) (required : Bool) :
    Ends (validateField (.mk attrs type) required value) := by
  by_cases hrejects : attrs.Rejects
  · exact rejected_returns hrejects type required value
  · cases hnull : value.isNull with
    | true =>
      cases value with
      | null => exact null_returns _ required
      | _ => cases hnull
    | false =>
      exact (validateField_returns hrejects type required hnull).mpr
        ⟨htype attrs, fun hrun => runValidators_of_copes (hvalidators hrun)⟩

/-- **What passes returns.** -/
theorem returned_of_passes {subject : Subject} (h : Passes std subject) :
    Returned std subject := by
  induction h with
  | null => exact null_returns _
  | rejected h => exact fun required => rejected_returns h _ required _
  | field _ hvalidators ih => exact field_returned ih hvalidators
  | scalar h => exact fun attrs => scalar_returned h attrs _
  | array _ ih => exact fun attrs => array_returns.mpr fun hvalue item hitem => ih hvalue item hitem true
  | set _ ih => exact fun attrs => set_returns.mpr fun hvalue item hitem => ih hvalue item hitem true
  | map _ ih => exact fun attrs => map_returns.mpr ih
  | noEntries => exact .done trivial
  | entry _ _ _ ihkey ihvalue ihrest =>
    exact validateEntries_cons.mpr ⟨ihkey true, fun hkey => ihvalue hkey true, ihrest⟩
  | record _ ih =>
    exact fun attrs => record_returns.mpr fun htable =>
      (ih htable none none).mono fun _ _ => trivial
  | copied hrun _ => exact fun attrs => record_returns.mpr fun _ => ⟨_, hrun, trivial⟩
  | matched h => exact fun attrs => matched_returns.mpr h
  | foreign hvalue hfields _ _ ihkeys ihschema =>
    refine fun attrs => foreign_returns.mpr ⟨fun k hk => ⟨hvalue (List.ne_nil_of_mem hk), ?_⟩, ?_⟩
    · intro v hv hfalse
      obtain ⟨field, hfield⟩ := Option.isSome_iff_exists.mp (hfields k hk v hv hfalse)
      exact ⟨field, hfield, ihkeys k hk v hv hfalse field hfield false⟩
    · intro htable hinvalid
      exact (ihschema htable hinvalid none none).mono fun _ _ => trivial
  | noChecks => exact .done rfl
  | check hsafe _ _ ihattempts ihrest =>
    exact runChecks_cons.mpr ⟨runEntityCheck_returns.mpr ⟨hsafe, fun field value h =>
      ihattempts field value h false⟩, ihrest⟩
  | schema htable _ _ ihfields ihchecks =>
    intro originalInput rbwEntity
    exact (schema_returns originalInput rbwEntity).mpr ⟨htable,
      fun entry hentry hvalidated field hfield => ihfields entry hentry hvalidated field hfield false,
      ihchecks⟩

/-! ## What returns passes -/

/-- The matches of a check with the fields that they are about. -/
def EntityCheck.matchings : EntityCheck → List (Match × Text)
  | .conditional arg => [(arg.ifMatch, arg.ifField), (arg.thenMatch, arg.thenField)]
  | .conditionalAtLeastOneOf arg =>
    (arg.ifMatch, arg.ifField) :: arg.elseMatch.toList.map fun m => (m, arg.ifField)
  | _ => []

theorem EntityCheck.Tries.mem {fields : List (Text × Field)}
    {reader : Text → Validation (Option Value)} {check : EntityCheck} {field : Field}
    {value : Value} (h : check.Tries std fields reader field value) :
    ∃ m ∈ check.matchings, field = matchedField std fields m.1 m.2 := by
  cases h with
  | ifMatch h => exact ⟨_, List.mem_cons_self, rfl⟩
  | thenMatch h => exact ⟨_, List.mem_cons_of_mem _ List.mem_cons_self, rfl⟩
  | ifMatchOf h => exact ⟨_, List.mem_cons_self, rfl⟩
  | @elseMatch arg value elseMatch h helse hnot =>
    exact ⟨(elseMatch, arg.ifField), by simp [matchings, helse], rfl⟩

/-- A part of a definition. -/
inductive Part where
  | field (field : Field)
  | type (type : FieldType)
  | schema (schema : Schema)

variable (std) in
/-- A definition of the types of fields, with the validators and the checks
that come with schemas. The checks of a foreign schema store nothing: what
they would store in a foreign key is not seen in what `validate` returns. -/
inductive Built : Part → Prop
  | field {attrs : Attrs} {type : FieldType} (htype : Built (.type type))
      (hvalidators : ∀ entry ∈ attrs.validators, ∃ validator : Validator,
        entry = validator.entry std type.isMap) : Built (.field (.mk attrs type))
  | scalar {type : FieldType} (h : type.isScalar = true) : Built (.type type)
  | array {elements : Field} (h : Built (.field elements)) : Built (.type (.array elements))
  | set {elements : Field} (h : Built (.field elements)) : Built (.type (.set elements))
  | map {keys values : Field} (hkeys : Built (.field keys)) (hvalues : Built (.field values)) :
      Built (.type (.map keys values))
  | record {inner : Schema} (h : Built (.schema inner)) : Built (.type (recordType std inner))
  | matched {schema : Schema} : Built (.type (matchedRecord schema))
  | foreign {schema : Schema} {primaryKey : List Text} (h : Built (.schema schema))
      (hpure : ∀ value, Ends (validateWith (schemaFns schema) schema value false none none) →
        Totally (validateWith (schemaFns schema) schema value false none none)
          fun outcome => outcome.stored = []) :
      Built (.type (foreignType schema primaryKey))
  | schema {fields : List (Text × Field)} {checks : List EntityCheck}
      {unvalidatedFields : List Text} (hfields : ∀ entry ∈ fields, Built (.field entry.2))
      (hmatches : ∀ check ∈ checks, ∀ m ∈ check.matchings,
        Built (.field (matchedField std fields m.1 m.2))) :
      Built (.schema (schemaOf std fields checks unvalidatedFields))

theorem overAttrs_validators (m : Match) {isMap : Bool} {attrs : Attrs}
    (h : ∀ entry ∈ attrs.validators, ∃ validator : Validator,
      entry = validator.entry std isMap) :
    ∀ entry ∈ (m.overAttrs std isMap attrs).validators, ∃ validator : Validator,
      entry = validator.entry std isMap := by
  intro entry hentry
  obtain ⟨name, -, hname⟩ := List.mem_filterMap.mp hentry
  rw [Option.orElse_eq_orElse, Option.orElse_eq_or] at hname
  rcases Option.or_eq_some_iff.mp hname with hown | ⟨-, hattrs⟩
  · obtain ⟨validator, -, heq⟩ := List.mem_map.mp (List.mem_of_find?_eq_some hown)
    exact ⟨validator, heq.symm⟩
  · exact h entry (List.mem_of_find?_eq_some hattrs)

variable (std) in
/-- Where validating against a part returns, it passes. -/
def Converse : Part → Prop
  | .field field => ∀ value required, Ends (validateField field required value) →
    Passes std (.field field value)
  | .type type => ∀ value attrs, Ends (validateType type attrs value) →
    Passes std (.type type value)
  | .schema schema => (∀ k field, schema.fields.lookup k = some field → ∀ value required,
      Ends (validateField field required value) → Passes std (.field field value))
    ∧ ∀ input fullCheck originalInput rbwEntity,
      Totally (validateWith (schemaFns schema) schema input fullCheck originalInput rbwEntity)
        (fun outcome => outcome.stored = []) → Passes std (.schema schema input fullCheck)

theorem passes_field {attrs : Attrs} {type : FieldType}
    (ih : Converse std (.type type))
    (hvalidators : ∀ entry ∈ attrs.validators, ∃ validator : Validator,
      entry = validator.entry std type.isMap) : Converse std (.field (.mk attrs type)) := by
  intro value required h
  by_cases hrejects : attrs.Rejects
  · exact .rejected hrejects
  · cases hnull : value.isNull with
    | true =>
      cases value with
      | null => exact .null
      | _ => cases hnull
    | false =>
      obtain ⟨htype, hrest⟩ := (validateField_returns hrejects type required hnull).mp h
      exact .field (ih value attrs htype) fun hrun => copes_of_runValidators hvalidators (hrest hrun)

theorem passes_entries {keys values : Field} (ihkeys : Converse std (.field keys))
    (ihvalues : Converse std (.field values)) {entries : List (Key × Value)}
    (h : Ends (validateEntries (validateField keys true) (validateField values true) entries)) :
    Passes std (.entries keys values entries) := by
  induction entries with
  | nil => exact .noEntries
  | cons entry rest ih =>
    obtain ⟨hkey, hvalue, hrest⟩ := validateEntries_cons.mp h
    exact .entry (ihkeys _ true hkey) (fun hvalid => ihvalues _ true (hvalue hvalid))
      fun hvalid hvalid' => ih (hrest hvalid hvalid')

theorem passes_checks {fields : List (Text × Field)} {checks : List EntityCheck}
    {input : Value} {fullCheck : Bool}
    (ih : ∀ check ∈ checks, ∀ m ∈ check.matchings,
      Converse std (.field (matchedField std fields m.1 m.2))) {errors : Errors}
    (h : ChecksReturn std fields checks input fullCheck errors) :
    Passes std (.checks fields checks input fullCheck errors) := by
  induction checks generalizing errors with
  | nil => exact .noChecks
  | cons check rest ihrest =>
    obtain ⟨hcheck, hrest⟩ := runChecks_cons.mp h
    obtain ⟨hsafe, hattempts⟩ := runEntityCheck_returns.mp hcheck
    refine .check hsafe (fun field value hattempt => ?_) fun errors' hrun => ?_
    · have hends := hattempts field value hattempt
      obtain ⟨found, -, htries⟩ := hattempt
      obtain ⟨m, hm, rfl⟩ := htries.mem
      exact ih check List.mem_cons_self m hm value false hends
    · exact ihrest (fun check hcheck => ih check (List.mem_cons_of_mem _ hcheck)) (hrest errors' hrun)

/-- **What returns passes.** -/
theorem passes_of_returned {part : Part} (h : Built std part) : Converse std part := by
  induction h with
  | field _ hvalidators ih => exact passes_field ih hvalidators
  | scalar h => exact fun value attrs _ => .scalar h
  | array _ ih =>
    intro value attrs h
    exact .array fun hvalue item hitem => ih item true (array_returns.mp h hvalue item hitem)
  | set _ ih =>
    intro value attrs h
    exact .set fun hvalue item hitem => ih item true (set_returns.mp h hvalue item hitem)
  | map _ _ ihkeys ihvalues =>
    intro value attrs h
    exact .map (passes_entries ihkeys ihvalues (map_returns.mp h))
  | @record inner _ ih =>
    intro value attrs h
    by_cases hstored : value.isTable = true →
        Totally (validateWith (schemaFns inner) inner (autoFields std inner value) true none none)
          fun outcome => outcome.stored = []
    · exact .record fun htable => ih.2 _ true none none (hstored htable)
    · obtain ⟨htable, hstored⟩ := Classical.not_imp.mp hstored
      obtain ⟨outcome, hrun, -⟩ := record_returns.mp h htable
      exact .copied hrun fun heq => hstored ⟨outcome, hrun, heq⟩
  | matched => exact fun value attrs h => .matched (matched_returns.mp h)
  | foreign _ hpure ih =>
    intro value attrs h
    obtain ⟨hkeys, hschema⟩ := foreign_returns.mp h
    refine .foreign (fun hne => ?_) (fun k hk v hv hfalse => ?_)
      (fun k hk v hv hfalse field hfield => ?_) fun htable hinvalid => ?_
    · obtain ⟨k, hk⟩ := List.exists_mem_of_ne_nil _ hne
      exact (hkeys k hk).1
    · obtain ⟨field, hfield, -⟩ := (hkeys k hk).2 v hv hfalse
      rw [hfield]
      rfl
    · obtain ⟨field', hfield', hends⟩ := (hkeys k hk).2 v hv hfalse
      rw [hfield] at hfield'
      cases hfield'
      exact ih.1 k field hfield v false hends
    · exact ih.2 value false none none (hpure value (hschema htable hinvalid))
  | @schema fields checks unvalidatedFields _ _ ihfields ihmatches =>
    have hlookup : ∀ k field, fields.lookup k = some field → ∀ value required,
        Ends (validateField field required value) → Passes std (.field field value) := by
      intro k field hfield
      obtain ⟨before, after, hfields, -⟩ := List.lookup_eq_some_iff.mp hfield
      exact ihfields (k, field) (by rw [hfields]; simp)
    refine ⟨hlookup, fun input fullCheck originalInput rbwEntity h => ?_⟩
    obtain ⟨htable, hfields, hchecks⟩ := (schema_returns originalInput rbwEntity).mp h
    refine .schema htable (fun entry hentry hvalidated field hfield => ?_) fun errors hrun => ?_
    · exact hlookup _ field hfield _ false (hfields entry hentry hvalidated field hfield)
    · exact passes_checks ihmatches (hchecks errors hrun)

/-- A validation of an entity returns, with errors if there are any, and
leaves the entity as it is. -/
def TotalAndPure (schema : Schema) (input : Value) (fullCheck : Bool)
    (originalInput rbwEntity : Option Value) : Prop :=
  ∃ errors, (validateWith (schemaFns schema) schema input fullCheck originalInput rbwEntity).run
    validationErrors = .ok { errors := errors, stored := [] }

instance {schema : Schema} {input : Value} {fullCheck : Bool}
    {originalInput rbwEntity : Option Value} :
    Decidable (TotalAndPure schema input fullCheck originalInput rbwEntity) :=
  match hrun : (validateWith (schemaFns schema) schema input fullCheck originalInput rbwEntity).run
      validationErrors with
  | .ok ⟨_, []⟩ => .isTrue ⟨_, hrun⟩
  | .ok ⟨_, _ :: _⟩ => .isFalse fun ⟨_, h⟩ => by rw [hrun] at h; cases h
  | .error _ => .isFalse fun ⟨_, h⟩ => by rw [hrun] at h; cases h

theorem totalAndPure_iff {schema : Schema} {input : Value} {fullCheck : Bool}
    {originalInput rbwEntity : Option Value} :
    TotalAndPure schema input fullCheck originalInput rbwEntity ↔
      Totally (validateWith (schemaFns schema) schema input fullCheck originalInput rbwEntity)
        fun outcome => outcome.stored = [] := by
  constructor
  · rintro ⟨errors, hrun⟩
    exact ⟨_, hrun, rfl⟩
  · rintro ⟨⟨errors, stored⟩, hrun, rfl⟩
    exact ⟨errors, hrun⟩

end

/-- Texts and numbers as they are, and patterns without special characters. -/
def plainStd : Std where
  tostring
    | .str s => s
    | .num n => decimal n.num.toNat
    | .bool b => ofText (if b then "true" else "false")
    | _ => ofText "table"
  integer n := decimal n.num.toNat
  stringMatch s pattern := some (s.tails.any pattern.isPrefixOf)
  regexError _ := false
  uuid := ofText "6ba7b810-9dad-41d1-80b4-00c04fd430c8"
  randomString := ofText "wSgkJnMvx9TqTYTVqjGkMZSa6zWlDQGr"
  now := 0
  time := 0

/-- The fields of an entity with a record, and of the record. -/
def limitFields : List (Text × Field) :=
  [(ofText "mode", .mk { required := true } .string), (ofText "limit", .mk {} .integer)]

def entityFields : List (Text × Field) :=
  [(ofText "name", .mk { required := true } .string),
    (ofText "config", .mk {} (recordType plainStd (schemaOf plainStd limitFields [] [])))]

def entitySchema : Schema :=
  schemaOf plainStd entityFields
    [.conditional {
        ifField := ofText "config.mode"
        ifMatch := { validators := [.eq (.str (ofText "strict"))] }
        thenField := ofText "config.limit"
        thenMatch := { required := some true } },
      .atLeastOneOf [ofText "name", ofText "config.limit"]] []

/-- A number in the place of a record. -/
def numberEntity : Value :=
  .object [(ofText "name", .str (ofText "n")), (ofText "config", .num 5)]

/-- An entity without the field that a check asks for. -/
def strictEntity : Value :=
  .object [(ofText "name", .str (ofText "n")),
    (ofText "config", .object [(ofText "mode", .str (ofText "strict"))])]

theorem entitySchema_built : Built plainStd (.schema entitySchema) := by
  have hplain : ∀ {attrs : Attrs} {type : FieldType}, type.isScalar = true →
      attrs.validators = [] → Built plainStd (.field (.mk attrs type)) :=
    fun htype hnone => .field (.scalar htype) (by simp [hnone])
  have hmatched : ∀ (m : Match) {name : Text} {attrs : Attrs} {type : FieldType},
      fieldAt entityFields (parts name) = some (.mk attrs type) → type.isScalar = true →
      m.overType type = type → attrs.validators = [] →
      Built plainStd (.field (matchedField plainStd entityFields m name)) := by
    intro m name attrs type hfield hscalar htype hnone
    unfold matchedField
    rw [hfield, Match.over, htype]
    exact .field (.scalar hscalar) (overAttrs_validators m (by simp [hnone]))
  have hlimit : ∀ entry ∈ limitFields, Built plainStd (.field entry.2) := by
    intro entry hentry
    rcases List.mem_cons.mp hentry with rfl | hentry
    · exact hplain rfl rfl
    · rw [List.mem_singleton.mp hentry]
      exact hplain rfl rfl
  have hconfig : Built plainStd (.type (recordType plainStd
      (schemaOf plainStd limitFields [] []))) :=
    .record (.schema hlimit (by simp))
  refine .schema (fun entry hentry => ?_) fun check hcheck m hm => ?_
  · rcases List.mem_cons.mp hentry with rfl | hentry
    · exact hplain rfl rfl
    · rw [List.mem_singleton.mp hentry]
      exact .field hconfig (by simp)
  · rcases List.mem_cons.mp hcheck with rfl | hcheck
    · rcases List.mem_cons.mp hm with rfl | hm
      · exact hmatched _ rfl rfl rfl rfl
      · rw [List.mem_singleton.mp hm]
        exact hmatched _ rfl rfl rfl rfl
    · rw [List.mem_singleton.mp hcheck] at hm
      cases hm

end KongGateway.Kong.Db.SchemaValidation

import KongGateway.Kong.Db.Schema.Paths

/-!
# Totality — where validators and checks return

A validation raises an error where it indexes a number or a boolean for a
name with dots, writes below an error that is a text, or compares values of
other types than its validators are for. What validators and checks cope
with is said of the values and the errors that they are run on.
-/

namespace KongGateway.Kong.Db.SchemaValidation

open Bytes Coroutine

/-! ## Texts -/

/-- The number of arguments that a text takes; none where `%` is the end. -/
def holes : Text → Option Nat
  | [] => some 0
  | c :: rest =>
    if c = 37 then
      match rest with
      | d :: rest => if d = 37 then holes rest else (holes rest).map (· + 1)
      | [] => none
    else holes rest

theorem format_isSome {fmt : Text} {args : List Text} :
    (∃ text, format fmt args = some text) ↔ ∃ n, holes fmt = some n ∧ n ≤ args.length := by
  fun_induction holes fmt generalizing args with
  | case1 => simp [format]
  | case2 rest ih => simpa [format] using ih
  | case3 d rest hd ih =>
    cases args with
    | nil => simp [format, hd]
    | cons arg args => simpa [format, hd] using ih
  | case4 => simp [format]
  | case5 c rest hc ih =>
    rw [format.eq_def]
    simpa [hc] using ih

theorem formatted_returns {fmt : Text} {args : List Text} :
    Ends (formatted fmt args) ↔ ∃ n, holes fmt = some n ∧ n ≤ args.length := by
  rw [← format_isSome]
  unfold formatted
  cases format fmt args <;> simp

/-- Whether the table has a text that takes no more arguments than these. -/
def takes (key : Text) (n : Nat) : Bool := ((validationErrors key).bind holes).any (· ≤ n)

theorem takes_iff {key : Text} {n : Nat} :
    takes key n = true ↔ ∃ fmt m, validationErrors key = some fmt ∧ holes fmt = some m ∧ m ≤ n := by
  unfold takes
  rw [Option.any_eq_true]
  constructor
  · rintro ⟨m, hbind, hm⟩
    obtain ⟨fmt, hfmt, hholes⟩ := Option.bind_eq_some_iff.mp hbind
    exact ⟨fmt, m, hfmt, hholes, of_decide_eq_true hm⟩
  · rintro ⟨fmt, m, hfmt, hholes, hm⟩
    exact ⟨m, Option.bind_eq_some_iff.mpr ⟨fmt, hfmt, hholes⟩, decide_eq_true hm⟩

/-- The texts that are filled in, with the number of their arguments. -/
def arguments : List (String × Nat) :=
  [("EQ", 1), ("NE", 1), ("GT", 1), ("BETWEEN", 2), ("LEN_EQ", 1), ("LEN_MIN", 1),
    ("LEN_MAX", 1), ("MATCH", 1), ("NOT_MATCH", 1), ("MATCH_ALL", 1), ("MATCH_NONE", 1),
    ("MATCH_ANY", 1), ("STARTS_WITH", 1), ("CONTAINS", 1), ("ONE_OF", 1), ("NOT_ONE_OF", 1),
    ("IS_REGEX", 1), ("TIMESTAMP", 1), ("UUID", 1), ("VALIDATION", 1), ("ENTITY_CHECK", 2),
    ("CONDITIONAL", 1), ("AT_LEAST_ONE_OF", 1), ("CONDITIONAL_AT_LEAST_ONE_OF", 1),
    ("ONLY_ONE_OF", 1), ("DISTINCT", 1), ("MUTUALLY_REQUIRED", 1), ("MUTUALLY_EXCLUSIVE", 1),
    ("MUTUALLY_EXCLUSIVE_SETS", 1), ("SCHEMA_TYPE", 1)]

theorem takes_arguments : ∀ entry ∈ arguments, takes (ofText entry.1) entry.2 = true := by
  unfold takes validationErrors
  rw [ofText_eq_ofAscii]
  decide +kernel

/-- The texts that are taken as they are. -/
def messages : List String :=
  ["REQUIRED", "REQUIRED_FOR_ENTITY_CHECK", "SUBSCHEMA_ABSTRACT_FIELD", "MISSING_PK", "UNKNOWN",
    "INTEGER", "STRING", "FUNCTION", "NUMBER", "BOOLEAN", "ARRAY", "SET", "MAP", "RECORD"]

theorem isSome_messages : ∀ key ∈ messages, (validationErrors (ofText key)).isSome = true := by
  unfold validationErrors
  rw [ofText_eq_ofAscii]
  decide +kernel

theorem message_returns (key : String) (h : key ∈ messages) : Ends (message key) := by
  obtain ⟨text, htext⟩ := Option.isSome_iff_exists.mp (isSome_messages key h)
  simp [message, htext]

theorem messageWith_returns (key : String) (n : Nat) (h : (key, n) ∈ arguments)
    {args : List Text} (hn : n ≤ args.length) : Ends (messageWith key args) := by
  obtain ⟨fmt, m, hfmt, hholes, hm⟩ := takes_iff.mp (takes_arguments _ h)
  simp only [messageWith, message, returns_bind, returns_look, hfmt, returns_done]
  exact formatted_returns.mpr ⟨m, hholes, hm.trans hn⟩

/-! ## Validators -/

/-- A value that can be part of a list in a text. -/
def Value.isPlain : Value → Bool
  | .str _ | .num _ => true
  | _ => false

/-- The patterns are matched with a text while the outcome is the wanted one,
and none that is matched is malformed. -/
def MatchesWhile (std : Std) (value : Value) (wanted : Bool) : List Text → Prop
  | [] => True
  | pattern :: rest => ∃ s m, value = .str s ∧ std.stringMatch s pattern = some m
      ∧ (m = wanted → MatchesWhile std value wanted rest)

/-- The values that a validator can be run on. -/
def Validator.Copes (std : Std) (value : Value) : Validator → Prop
  | .between .. | .gt _ | .timestamp => ∃ n, value = .num n
  | .lenEq _ | .lenMin _ | .lenMax _ | .contains _ | .mutuallyExclusiveSubsets _ =>
    value.isIndexable = true
  | .match pattern | .notMatch pattern => MatchesWhile std value true [pattern]
  | .matchAll list => MatchesWhile std value true (list.map Prod.fst)
  | .matchNone list => MatchesWhile std value false (list.map Prod.fst)
  | .matchAny patterns _ => MatchesWhile std value false patterns
  | .isRegex | .startsWith _ => ∃ s, value = .str s
  | .uuid => (∃ s, value = .str s) ∨ value.isTable = true ∧ value.items.length ≠ 36
  | .oneOf options => (∃ option ∈ options, same value option = true)
      ∨ ∀ option ∈ options, option.isPlain = true
  | .notOneOf options => (∃ option ∈ options, same value option = true) →
      ∀ option ∈ options, option.isPlain = true
  | .eq _ | .ne _ | .customValidator _ => True

section

variable {std : Std} {value : Value}

theorem asNumber_returns : Ends (asNumber value) ↔ ∃ n, value = .num n := by
  cases value <;> simp [asNumber]

theorem asString_returns {P : Text → Prop} :
    Totally (asString value) P ↔ ∃ s, value = .str s ∧ P s := by
  cases value <;> simp [asString]

theorem lengthOf_returns : Ends (lengthOf value) ↔ value.isIndexable = true := by
  cases value <;> simp [lengthOf, Value.isIndexable, Value.isTable]

theorem ends_bind_of_ends {α β : Type} {task : Validation α} {f : α → Validation β}
    (hf : ∀ result, Ends (f result)) : Ends (task >>= f) ↔ Ends task := by
  simp [hf]

theorem ends_bind_iff {α β : Type} {task : Validation α} {f : α → Validation β} {p : Prop}
    (hf : ∀ result, Ends (f result) ↔ p) : Ends (task >>= f) ↔ Ends task ∧ p := by
  simp only [returns_bind, hf]
  exact returns_const

theorem invalid_returns (key : String) (n : Nat) (h : (key, n) ∈ arguments) {args : List Text}
    (hn : n ≤ args.length) : Ends (invalid key args) :=
  (messageWith_returns key n h hn).bind fun _ _ => .done trivial

theorem passOr_returns {c : Prop} [Decidable c] {task : Validation (Option (Option Text))}
    (h : Ends task) : Ends (if c then pure none else task) := by
  simp [h]

theorem orPass_returns {c : Prop} [Decidable c] {task : Validation (Option (Option Text))}
    (h : Ends task) : Ends (if c then task else pure none) := by
  simp [h]

theorem stringMatch_returns {pattern : Text} {P : Bool → Prop} :
    Totally (stringMatch std value pattern) P ↔
      ∃ s m, value = .str s ∧ std.stringMatch s pattern = some m ∧ P m := by
  simp only [stringMatch, returns_bind, asString_returns]
  refine exists_congr fun s => ?_
  cases std.stringMatch s pattern <;> simp

theorem matchEach_returns (wanted : Bool) (list : List (Text × Option Text)) :
    Ends (matchEach std value wanted list) ↔
      MatchesWhile std value wanted (list.map Prod.fst) := by
  induction list with
  | nil => simp [matchEach, MatchesWhile]
  | cons entry rest ih =>
    simp only [matchEach, returns_bind, stringMatch_returns, returns_ite, List.map_cons,
      MatchesWhile, ih]
    simp

theorem matchSome_returns (err : Option Text) (patterns : List Text) :
    Ends (matchSome std value err patterns) ↔ MatchesWhile std value false patterns := by
  induction patterns with
  | nil => simp [matchSome, MatchesWhile]
  | cons pattern rest ih =>
    simp only [matchSome, returns_bind, stringMatch_returns, returns_ite, MatchesWhile, ih]
    simp

theorem concat_returns (options : List Value) :
    Ends (concat std options) ↔ ∀ option ∈ options, option.isPlain = true := by
  refine (ends_bind_of_ends fun _ => .done trivial).trans ?_
  induction options with
  | nil => simp [concatItems]
  | cons option rest ih => cases option <;> simp_all [concatItems, Value.isPlain]

theorem lengthValidator_returns (err : String) (h : (err, 1) ∈ arguments)
    (test : ℚ → ℚ → Bool) (isMap : Bool) (n : ℚ) :
    Ends (lengthValidator std err test isMap value n) ↔ value.isIndexable = true :=
  (ends_bind_of_ends fun _ => passOr_returns (invalid_returns err 1 h le_rfl)).trans
    lengthOf_returns

/-- **A validator returns** for the values that it copes with. -/
theorem Validator.run_returns (isMap : Bool) (validator : Validator) :
    Ends (validator.run std isMap value) ↔ validator.Copes std value := by
  have hinvalid : ∀ {key : String} {arg : Text}, (key, 1) ∈ arguments →
      Ends (invalid key [arg]) := fun h => invalid_returns _ 1 h le_rfl
  cases validator with
  | between lower upper =>
    refine (ends_bind_of_ends fun n => ?_).trans asNumber_returns
    exact orPass_returns (invalid_returns "BETWEEN" 2 (by simp [arguments]) le_rfl)
  | eq wanted =>
    exact iff_of_true (passOr_returns (hinvalid (by simp [arguments]))) trivial
  | ne wanted =>
    exact iff_of_true (orPass_returns (hinvalid (by simp [arguments]))) trivial
  | gt limit =>
    refine (ends_bind_of_ends fun n => ?_).trans asNumber_returns
    exact passOr_returns (hinvalid (by simp [arguments]))
  | lenEq n =>
    unfold run
    exact lengthValidator_returns "LEN_EQ" (by simp [arguments]) _ _ n
  | lenMin n =>
    unfold run
    exact lengthValidator_returns "LEN_MIN" (by simp [arguments]) _ _ n
  | lenMax n =>
    unfold run
    exact lengthValidator_returns "LEN_MAX" (by simp [arguments]) _ _ n
  | «match» pattern =>
    refine (ends_bind_of_ends fun m => ?_).trans ?_
    · exact passOr_returns (hinvalid (by simp [arguments]))
    · simp [stringMatch_returns, Copes, MatchesWhile]
  | isRegex => exact (ends_bind_of_ends fun s => by simp).trans (by simp [asString_returns, Copes])
  | notMatch pattern =>
    refine (ends_bind_of_ends fun m => ?_).trans ?_
    · exact orPass_returns (hinvalid (by simp [arguments]))
    · simp [stringMatch_returns, Copes, MatchesWhile]
  | matchAll list => exact matchEach_returns true list
  | matchNone list => exact matchEach_returns false list
  | matchAny patterns err => exact matchSome_returns err patterns
  | startsWith expected =>
    refine (ends_bind_of_ends fun s => ?_).trans (by simp [asString_returns, Copes])
    exact passOr_returns (hinvalid (by simp [arguments]))
  | oneOf options =>
    have hlist : Ends (concat std options >>= fun list => invalid "ONE_OF" [list]) ↔
        ∀ option ∈ options, option.isPlain = true :=
      (ends_bind_of_ends fun _ => hinvalid (by simp [arguments])).trans (concat_returns options)
    simp only [run, returns_ite, hlist, Copes, List.any_eq_true]
    simp [Classical.or_iff_not_imp_left]
  | notOneOf options =>
    have hlist : Ends (concat std options >>= fun list => invalid "NOT_ONE_OF" [list]) ↔
        ∀ option ∈ options, option.isPlain = true :=
      (ends_bind_of_ends fun _ => hinvalid (by simp [arguments])).trans (concat_returns options)
    simp only [run, returns_ite, hlist, Copes, List.any_eq_true]
    simp
  | timestamp => exact (ends_bind_of_ends fun n => by simp).trans asNumber_returns
  | uuid =>
    unfold run Copes
    cases value <;> simp [lengthOf, asString, Value.isTable, Value.items]
  | contains wanted =>
    refine (ends_bind_of_ends fun n => ?_).trans lengthOf_returns
    exact passOr_returns (hinvalid (by simp [arguments]))
  | mutuallyExclusiveSubsets subsets =>
    refine (ends_bind_of_ends fun n => ?_).trans lengthOf_returns
    exact passOr_returns (hinvalid (by simp [arguments]))
  | customValidator fn => exact iff_of_true (.done trivial) trivial

end

/-! ## The fields of a check -/

/-- What `get_field` reads of an entity. -/
def read (input : Value) (name : Text) : Option Value := valueAt (some input) (parts name)

theorem parts_ne_nil (name : Text) : parts name ≠ [] := List.splitOn_ne_nil 46 name

/-- A check asks for a field. -/
def Check.asks (check : Check) (name : Text) : Bool :=
  !check.runWithMissingFields && !check.argRunWithMissingFields
    && check.requiredFields.contains name

/-- Whether the loop over the fields of a check ends at a field. -/
def holdsReference (fields : List (Text × Field)) (input : Value) (name : Text) : Bool :=
  (read input name).any fun value =>
    (fieldAt fields (parts name)).any Field.isReferenceable && isReference value

/-- The fields of a check can be read and projected after others. -/
inductive Walks (fields : List (Text × Field)) (check : Check) (input : Value) :
    List Text → List Text → Prop
  | nil {before : List Text} : Walks fields check input before []
  | reference {before rest : List Text} {name : Text} (hnamed : Named fields (parts name))
      (hread : Readable (some input) (parts name))
      (h : holdsReference fields input name = true) :
      Walks fields check input before (name :: rest)
  | cons {before rest : List Text} {name : Text}
      (hnamed : (read input name).isSome = true ∨ check.asks name = true →
        Named fields (parts name))
      (hread : Readable (some input) (parts name))
      (hthrough : ∀ n ∈ before, Through input (parts n) (parts name))
      (h : Walks fields check input (before ++ [name]) rest) :
      Walks fields check input before (name :: rest)

section

variable {fields : List (Text × Field)} {check : Check} {input : Value} {errors : Errors}

theorem read_returns {name : Text} {P : Option Value → Prop} :
    Totally (getEntity input [] (parts name)) P ↔
      Readable (some input) (parts name) ∧ P (read input name) :=
  getEntity_returns

theorem isMissing_returns {name : Text} : Ends (isMissing fields check name) ↔
    (check.asks name = true → Named fields (parts name)) := by
  simp only [isMissing, returns_ite, returns_bind, getSchemaField_returns, Check.asks]
  simp

variable (input) in
/-- What the loop over the fields has found after some of them. -/
structure Finding (before : List Text) (found : Found) : Prop where
  stored : found.checkInput.stored = []
  projects : Projects input (before.map parts) found.checkInput.entries
  readable : ∀ n ∈ before, Readable (some input) (parts n)

theorem Finding.project {before : List Text} {found : Found} (h : Finding input before found)
    {name : Text} (hread : Readable (some input) (parts name)) :
    ∃ entries, (∀ found' : Found, found'.checkInput = ⟨entries, []⟩ →
        Finding input (before ++ [name]) found')
      ∧ ∀ P : Projections × List (List Text) → Prop, (∀ set, P set → set.2 = []) →
        (Totally (setProjection input (read input name) [] [] found.checkInput.entries
            (parts name)) P
          ↔ (∀ n ∈ before, Through input (parts n) (parts name)) ∧ P (entries, [])) := by
  obtain ⟨entries, hprojects, hset⟩ := h.projects.write (parts_ne_nil name) hread
  refine ⟨entries, fun found' hfound' => ⟨by rw [hfound'], ?_, fun n hn => ?_⟩, fun P hP => ?_⟩
  · rw [hfound', List.map_append]
    exact hprojects
  · rcases List.mem_append.mp hn with hn | hn
    · exact h.readable n hn
    · rwa [List.mem_singleton.mp hn]
  · have hstored : P = fun set => set.2 = [] ∧ P (set.1, []) := by
      funext ⟨entries, stored⟩
      refine propext ⟨fun h => ?_, ?_⟩
      · cases hP _ h
        exact ⟨rfl, h⟩
      · rintro ⟨rfl, h⟩
        exact h
    rw [hstored]
    simpa [read] using hset fun entries => P (entries, [])

theorem stored_of_setProjection {value : Option Value} (rest : List Text) {path : List Text}
    {stored : List (List Text)} {entries : Projections}
    (h : Totally (setProjection input value path stored entries rest) fun set => set.2 = []) :
    stored = [] := by
  induction rest generalizing path entries with
  | nil => simpa [setProjection] using h
  | cons hd tl ih =>
    cases tl with
    | nil => simpa [setProjection] using h
    | cons next rest =>
      rw [setProjection] at h
      · rcases hlookup : entries.lookup hd with _ | ⟨v | subtbl⟩
        · exact ih (by simpa [hlookup] using h)
        · by_cases htable : v.isTable = true
          · exact stored_of_storeBelow _ (by simpa [hlookup, htable] using h)
          · simp [hlookup, htable] at h
        · exact ih (by simpa [hlookup] using h)
      · exact List.cons_ne_nil next rest

theorem stored_of_findFields (rest : List Text) {found : Found}
    (h : Totally (findFields fields check input errors rest found) fun found' =>
      found'.checkInput.stored = []) : found.checkInput.stored = [] := by
  induction rest generalizing found with
  | nil => simpa [findFields] using h
  | cons name rest ih =>
    obtain ⟨⟨entries, stored⟩, missing, allNil, allOk, reference⟩ := found
    simp only [findFields, returns_bind] at h
    obtain ⟨value, -, h⟩ := h
    cases value with
    | none =>
      simp only [returns_bind] at h
      obtain ⟨missing, -, h⟩ := h
      exact stored_of_setProjection _ (h.mono fun set hset => ih hset)
    | some value =>
      simp only [returns_bind, returns_ite, returns_pure] at h
      obtain ⟨field, -, h⟩ := h
      by_cases hreference : (field.any Field.isReferenceable && isReference value) = true
      · exact h.1 hreference
      · exact stored_of_setProjection _ ((h.2 hreference).mono fun set hset => ih hset)

/-- **The loop over the fields of a check** returns with what it has read. -/
theorem findFields_returns {rest before : List Text}
    (hwalks : Walks fields check input before rest) {found : Found}
    (h : Finding input before found) :
    Totally (findFields fields check input errors rest found) fun found' =>
      found'.checkInput.stored = []
        ∧ (found'.reference = false → Finding input (before ++ rest) found') := by
  induction hwalks generalizing found with
  | nil =>
    refine .done ⟨h.stored, fun _ => ?_⟩
    rwa [List.append_nil]
  | reference hnamed hread hholds =>
    obtain ⟨value, hvalue, hreference⟩ := (Option.any_eq_true _ _).mp hholds
    obtain ⟨⟨entries, stored⟩, missing, allNil, allOk, reference⟩ := found
    cases h.stored
    simp only [findFields, returns_bind, read_returns, hvalue, getSchemaField_returns]
    refine ⟨hread, hnamed, ?_⟩
    rw [if_pos hreference]
    exact .done ⟨rfl, by simp⟩
  | @cons before rest name hnamed hread hthrough hwalks ih =>
    obtain ⟨entries, hfinding, hset⟩ := h.project hread
    obtain ⟨⟨entries', stored⟩, missing, allNil, allOk, reference⟩ := found
    cases h.stored
    -- The rest of the loop, once the field is projected.
    have hrest : ∀ found' : Found, found'.checkInput = ⟨entries, []⟩ →
        Totally (findFields fields check input errors rest found') fun found' =>
          found'.checkInput.stored = []
            ∧ (found'.reference = false → Finding input (before ++ name :: rest) found') := by
      intro found' hfound'
      have hrest := @ih found' (hfinding found' hfound')
      simpa using hrest
    simp only [findFields, returns_bind, read_returns]
    refine ⟨hread, ?_⟩
    cases hvalue : read input name with
    | none =>
      rw [hvalue] at hset
      simp only [returns_bind]
      refine (isMissing_returns.mpr fun hasks => hnamed (.inr hasks)).mono fun missing _ => ?_
      refine (hset _ fun set hset => ?_).mpr ⟨hthrough, hrest _ rfl⟩
      exact stored_of_findFields rest (hset.mono fun _ h => h.1)
    | some value =>
      rw [hvalue] at hset
      simp only [returns_bind, getSchemaField_returns, returns_ite, returns_pure]
      refine ⟨hnamed (.inl (by rw [hvalue]; rfl)), fun _ => ⟨trivial, by simp⟩, fun _ => ?_⟩
      refine (hset _ fun set hset => ?_).mpr ⟨hthrough, hrest _ rfl⟩
      exact stored_of_findFields rest (hset.mono fun _ h => h.1)

/-- Where the loop returns and nothing is stored, the fields can be read and
projected. -/
theorem walks_of_returns (rest : List Text) {before : List Text} {found : Found}
    (h : Finding input before found)
    (hreturns : Totally (findFields fields check input errors rest found) fun found' =>
      found'.checkInput.stored = []) : Walks fields check input before rest := by
  induction rest generalizing before found with
  | nil => exact .nil
  | cons name rest ih =>
    obtain ⟨⟨entries', stored⟩, missing, allNil, allOk, reference⟩ := found
    cases h.stored
    simp only [findFields, returns_bind, read_returns] at hreturns
    obtain ⟨hread, hreturns⟩ := hreturns
    obtain ⟨entries, hfinding, hset⟩ := h.project hread
    cases hvalue : read input name with
    | none =>
      rw [hvalue] at hset hreturns
      simp only [returns_bind] at hreturns
      obtain ⟨missing, hmissing, hreturns⟩ := hreturns
      obtain ⟨hthrough, hrest⟩ := (hset _ fun set => stored_of_findFields rest).mp hreturns
      refine .cons ?_ hread hthrough (ih (hfinding _ rfl) hrest)
      rintro (hsome | hasks)
      · rw [hvalue] at hsome
        cases hsome
      · exact isMissing_returns.mp ⟨missing, hmissing, trivial⟩ hasks
    | some value =>
      rw [hvalue] at hset hreturns
      simp only [returns_bind, getSchemaField_returns, returns_ite] at hreturns
      obtain ⟨hnamed, -, hreturns⟩ := hreturns
      by_cases hholds : holdsReference fields input name = true
      · exact .reference hnamed hread hholds
      · have hreturns := hreturns (by simpa [holdsReference, hvalue] using hholds)
        obtain ⟨hthrough, hrest⟩ := (hset _ fun set => stored_of_findFields rest).mp hreturns
        exact .cons (fun _ => hnamed) hread hthrough (ih (hfinding _ rfl) hrest)

end

/-! ## Checkers -/

/-- What comes before the type lets no value through. -/
def Attrs.Rejects (attrs : Attrs) : Prop := attrs.eqNull = true ∨ attrs.abstract = true

/-- A field that can be matched with no value at all. -/
def Field.CopesNil : Field → Prop
  | .mk attrs type => attrs.Rejects ∨ match type with
    | .foreign (some _) _ => False
    | .foreign none _ | .any => attrs.validators.isEmpty = true
    | _ => True

/-- A text of the user that takes one argument at most. -/
def UserText (fmt : Option Text) : Prop :=
  ∀ t, fmt = some t → ∃ n, holes t = some n ∧ n ≤ 1

/-- A match of a check with its field. -/
def matchedField (std : Std) (fields : List (Text × Field)) (m : Match) (name : Text) : Field :=
  m.over std (fieldAt fields (parts name))

/-- What a check finds for a match. -/
def Accepted (field : Field) (value : Option Value) (result : Bool) : Prop :=
  (accepts field value).run validationErrors = .ok result

/-- What a checker reads of a field. -/
def Reads (reader : Text → Validation (Option Value)) (name : Text) (value : Option Value) : Prop :=
  (reader name).run validationErrors = .ok value

section

variable (std : Std) (fields : List (Text × Field)) (reader : Text → Validation (Option Value))

/-- A conditional check goes on to its second match, with a value; one that
is absent counts as null. -/
def Conditional.GoesOn (arg : Conditional) (value : Value) : Prop :=
  ∃ ifValue thenValue, Reads reader arg.ifField ifValue ∧ Reads reader arg.thenField thenValue
    ∧ thenValue.getD .null = value
    ∧ Accepted (matchedField std fields arg.ifMatch arg.ifField) ifValue true
    ∧ ¬ (arg.thenMatch.required = some true ∧ value.isNull = true)

/-- There is a list of fields of which one is required, and the text for
none takes one argument. -/
def RequiresSome (names : Option (List Text)) (err : Option Text) : Prop :=
  ∃ list, names = some list
    ∧ ((someNonempty reader list).run validationErrors = .ok false → UserText err)

/-- The matches that a check tries, and the values. -/
inductive EntityCheck.Tries : EntityCheck → Field → Value → Prop
  | ifMatch {arg : Conditional} {value : Value} (h : Reads reader arg.ifField (some value)) :
      Tries (.conditional arg) (matchedField std fields arg.ifMatch arg.ifField) value
  | thenMatch {arg : Conditional} {value : Value} (h : arg.GoesOn std fields reader value) :
      Tries (.conditional arg) (matchedField std fields arg.thenMatch arg.thenField) value
  | ifMatchOf {arg : ConditionalAtLeastOneOf} {value : Value}
      (h : Reads reader arg.ifField (some value)) :
      Tries (.conditionalAtLeastOneOf arg) (matchedField std fields arg.ifMatch arg.ifField) value
  | elseMatch {arg : ConditionalAtLeastOneOf} {value : Value} {elseMatch : Match}
      (h : Reads reader arg.ifField (some value)) (helse : arg.elseMatch = some elseMatch)
      (hnot : Accepted (matchedField std fields arg.ifMatch arg.ifField) (some value) false) :
      Tries (.conditionalAtLeastOneOf arg) (matchedField std fields elseMatch arg.ifField) value

/-- What a checker copes with beside its matches. -/
def EntityCheck.Copes : EntityCheck → Prop
  | .conditional arg => Named fields (parts arg.ifField)
      ∧ (Reads reader arg.ifField none →
        (matchedField std fields arg.ifMatch arg.ifField).CopesNil)
      ∧ ∀ value, arg.GoesOn std fields reader value → Named fields (parts arg.thenField)
        ∧ (Accepted (matchedField std fields arg.thenMatch arg.thenField) (some value) false →
          UserText arg.thenErr)
  | .conditionalAtLeastOneOf arg => ∀ value, Reads reader arg.ifField (some value) →
      Named fields (parts arg.ifField)
        ∧ (Accepted (matchedField std fields arg.ifMatch arg.ifField) (some value) true →
          RequiresSome reader (some arg.thenAtLeastOneOf) arg.thenErr)
        ∧ (Accepted (matchedField std fields arg.ifMatch arg.ifField) (some value) false →
          ∀ elseMatch, arg.elseMatch = some elseMatch →
          Accepted (matchedField std fields elseMatch arg.ifField) (some value) true →
          RequiresSome reader arg.elseThenAtLeastOneOf arg.elseThenErr)
  | _ => True

end

section

variable {std : Std} {fields : List (Text × Field)} {reader : Text → Validation (Option Value)}
  {names : List Text}

theorem acceptsNil_returns (field : Field) : Ends (acceptsNil field) ↔ field.CopesNil := by
  obtain ⟨attrs, type⟩ := field
  cases type with
  | foreign validatePrimaryKey validate =>
    cases validatePrimaryKey <;>
      simp [acceptsNil, Field.CopesNil, Attrs.Rejects, Classical.or_iff_not_imp_left]
  | _ => simp [acceptsNil, Field.CopesNil, Attrs.Rejects, Classical.or_iff_not_imp_left]

theorem accepted_iff {field : Field} {value : Value} {result : Bool} :
    Accepted field (some value) result ↔
      ∃ err, (validateField field false value).run validationErrors = .ok err
        ∧ err.isNone = result := by
  unfold Accepted
  rw [← returns_eq]
  simp only [accepts, returns_bind, returns_pure]
  rfl

theorem accepts_returns {field : Field} {value : Value} :
    Ends (accepts field (some value)) ↔ Ends (validateField field false value) :=
  ends_bind_of_ends fun _ => .done trivial

theorem accepts_bind {α : Type} {field : Field} {value : Value} {f : Bool → Validation α} :
    Ends (accepts field (some value) >>= f) ↔ Ends (validateField field false value)
      ∧ (Accepted field (some value) true → Ends (f true))
      ∧ (Accepted field (some value) false → Ends (f false)) := by
  refine returns_bind_iff.trans (and_congr accepts_returns ⟨fun h => ⟨h true, h false⟩, ?_⟩)
  rintro ⟨htrue, hfalse⟩ (_ | _) hrun
  · exact hfalse hrun
  · exact htrue hrun

theorem userError_returns {fmt : Option Text} {arg : Text} :
    Ends (userError fmt arg) ↔ UserText fmt := by
  cases fmt with
  | none => simp [userError, UserText]
  | some t => simp [userError, UserText, formatted_returns]

theorem someNonempty_returns (h : ∀ n ∈ names, Ends (reader n)) :
    Ends (someNonempty reader names) := by
  induction names with
  | nil => exact .done trivial
  | cons name rest ih =>
    have hrest := ih fun n hn => h n (List.mem_cons_of_mem _ hn)
    exact (h name List.mem_cons_self).bind fun value _ => by simp [hrest]

theorem countNonempty_returns (h : ∀ n ∈ names, Ends (reader n)) :
    Ends (countNonempty reader names) := by
  induction names with
  | nil => exact .done trivial
  | cons name rest ih =>
    have hrest := ih fun n hn => h n (List.mem_cons_of_mem _ hn)
    exact (h name List.mem_cons_self).bind fun value _ => by simp [hrest]

theorem nonemptyFields_returns (h : ∀ n ∈ names, Ends (reader n)) :
    Ends (nonemptyFields reader names) := by
  induction names with
  | nil => exact .done trivial
  | cons name rest ih =>
    have hrest := ih fun n hn => h n (List.mem_cons_of_mem _ hn)
    exact (h name List.mem_cons_self).bind fun value _ => by simp [hrest]

theorem hasSame_returns (h : ∀ n ∈ names, Ends (reader n)) (seen : List (Text × Value)) :
    Ends (hasSame reader names seen) := by
  induction names generalizing seen with
  | nil => exact .done trivial
  | cons name rest ih =>
    have hrest := ih fun n hn => h n (List.mem_cons_of_mem _ hn)
    refine (h name List.mem_cons_self).bind fun value _ => ?_
    cases value <;> simp [hrest]

theorem requireSome_returns {err : Option Text} {list : Option (List Text)}
    (h : ∀ names, list = some names → ∀ n ∈ names, Ends (reader n)) :
    Ends (requireSome reader list err) ↔ RequiresSome reader list err := by
  unfold requireSome RequiresSome
  cases list with
  | none => simp
  | some names =>
    have hsome := someNonempty_returns (h names rfl)
    have hboth : ∀ result, Ends (if result = true then pure { ok := true } else do
        let err2 ← userError err (quotedList names)
        return ({ ok := false, err := some (quotedList names), err2 := err2 } : CheckResult)) ↔
          (result = false → UserText err) := by
      intro result
      cases result <;> simp [userError_returns]
    refine returns_bind_iff.trans ?_
    simp [hsome, hboth]

theorem thenMatch_returns {arg : Conditional} {value : Value} :
    Ends (getSchemaField fields (parts arg.thenField) >>= fun thenType =>
        validateField (arg.thenMatch.over std thenType) false value >>= fun
          | none => return ({ ok := true } : CheckResult)
          | some err => do
            let thenErr ← userError arg.thenErr arg.ifField
            return { ok := false, err := some arg.ifField, err2 := thenErr,
                     report := some (arg.thenField, err) }) ↔
      Named fields (parts arg.thenField)
        ∧ Ends (validateField (matchedField std fields arg.thenMatch arg.thenField) false value)
        ∧ (Accepted (matchedField std fields arg.thenMatch arg.thenField) (some value) false →
          UserText arg.thenErr) := by
  refine returns_bind.trans ((getSchemaField_returns _).trans (and_congr_right fun _ => ?_))
  refine returns_bind_iff.trans (and_congr_right fun _ => ?_)
  rw [accepted_iff]
  constructor
  · rintro h ⟨err, hrun, hnone⟩
    cases err with
    | none => cases hnone
    | some err => simpa [userError_returns] using h _ hrun
  · intro h err hrun
    cases err with
    | none => exact .done trivial
    | some err => simpa [userError_returns] using h ⟨_, hrun, rfl⟩

theorem conditionalFn_returns {arg : Conditional} (hif : Ends (reader arg.ifField))
    (hthen : Ends (reader arg.thenField)) :
    Ends (conditionalFn std fields arg reader) ↔
      (EntityCheck.conditional arg).Copes std fields reader
        ∧ ∀ field value, (EntityCheck.conditional arg).Tries std fields reader field value →
          Ends (validateField field false value) := by
  obtain ⟨ifValue, hif, -⟩ := hif
  obtain ⟨thenValue, hthen, -⟩ := hthen
  have hfirst : Ends (conditionalFn std fields arg reader) ↔ Named fields (parts arg.ifField)
      ∧ Ends (accepts (matchedField std fields arg.ifMatch arg.ifField) ifValue)
      ∧ (Accepted (matchedField std fields arg.ifMatch arg.ifField) ifValue true →
        ¬ (arg.thenMatch.required = some true ∧ (thenValue.getD .null).isNull = true) →
        Named fields (parts arg.thenField)
          ∧ Ends (validateField (matchedField std fields arg.thenMatch arg.thenField) false
            (thenValue.getD .null))
          ∧ (Accepted (matchedField std fields arg.thenMatch arg.thenField)
            (some (thenValue.getD .null)) false → UserText arg.thenErr)) := by
    unfold conditionalFn
    refine (returns_bind_of_run hif).trans ((returns_bind_of_run hthen).trans ?_)
    refine returns_bind.trans ((getSchemaField_returns _).trans (and_congr_right fun _ => ?_))
    refine returns_bind_iff.trans (and_congr_right fun _ => ?_)
    rw [← thenMatch_returns]
    have hrequired := message_returns "REQUIRED" (by simp [messages])
    constructor
    · intro h haccepted hlacks
      have htrue := h true haccepted
      rw [if_neg (by decide), if_neg hlacks] at htrue
      exact htrue
    · intro h accepted haccepted
      cases accepted with
      | false => exact .done trivial
      | true =>
        rw [if_neg (by decide)]
        split
        · exact hrequired.bind fun _ _ => .done trivial
        · rename_i hlacks
          exact h haccepted hlacks
  have hread : ∀ {name : Text} {value value' : Option Value}, Reads reader name value →
      Reads reader name value' → value' = value :=
    fun h h' => Except.ok.inj (h'.symm.trans h)
  rw [hfirst]
  constructor
  · rintro ⟨hnamed, hends, hrest⟩
    have hgoesOn : ∀ {value}, arg.GoesOn std fields reader value →
        thenValue.getD .null = value ∧ Named fields (parts arg.thenField)
          ∧ Ends (validateField (matchedField std fields arg.thenMatch arg.thenField) false value)
          ∧ (Accepted (matchedField std fields arg.thenMatch arg.thenField) (some value) false →
            UserText arg.thenErr) := by
      rintro value ⟨ifValue', thenValue', hif', hthen', rfl, haccepted, hlacks⟩
      cases hread hif hif'
      cases hread hthen hthen'
      exact ⟨rfl, hrest haccepted hlacks⟩
    refine ⟨⟨hnamed, fun hnone => ?_, fun value h => ?_⟩, fun field value htries => ?_⟩
    · cases hread hif hnone
      exact (acceptsNil_returns _).mp hends
    · exact ⟨(hgoesOn h).2.1, (hgoesOn h).2.2.2⟩
    · cases htries with
      | ifMatch h =>
        cases hread hif h
        exact accepts_returns.mp hends
      | thenMatch h => exact (hgoesOn h).2.2.1
  · rintro ⟨⟨hnamed, hnil, hgoesOn⟩, htries⟩
    refine ⟨hnamed, ?_, fun haccepted hlacks => ?_⟩
    · cases ifValue with
      | none => exact (acceptsNil_returns _).mpr (hnil hif)
      | some value => exact accepts_returns.mpr (htries _ _ (.ifMatch hif))
    · have h : arg.GoesOn std fields reader (thenValue.getD .null) :=
        ⟨ifValue, thenValue, hif, hthen, rfl, haccepted, hlacks⟩
      exact ⟨(hgoesOn _ h).1, htries _ _ (.thenMatch h), (hgoesOn _ h).2⟩

theorem fieldsToCheck_conditionalAtLeastOneOf (arg : ConditionalAtLeastOneOf) :
    (EntityCheck.toCheck std fields (.conditionalAtLeastOneOf arg)).fieldsToCheck
      = arg.ifField :: (arg.thenAtLeastOneOf ++ arg.elseThenAtLeastOneOf.getD []) := by
  cases helse : arg.elseThenAtLeastOneOf <;>
    simp [EntityCheck.toCheck, Check.fieldsToCheck, SourceArg.fields, helse]

theorem conditionalAtLeastOneOfFn_returns {arg : ConditionalAtLeastOneOf}
    (hreader : ∀ n ∈ arg.ifField :: (arg.thenAtLeastOneOf ++ arg.elseThenAtLeastOneOf.getD []),
      Ends (reader n)) :
    Ends (conditionalAtLeastOneOfFn std fields arg reader) ↔
      (EntityCheck.conditionalAtLeastOneOf arg).Copes std fields reader
        ∧ ∀ field value,
          (EntityCheck.conditionalAtLeastOneOf arg).Tries std fields reader field value →
          Ends (validateField field false value) := by
  obtain ⟨ifValue, hif, -⟩ := hreader arg.ifField List.mem_cons_self
  have hread : ∀ {value : Option Value}, Reads reader arg.ifField value → value = ifValue :=
    fun h => Except.ok.inj (h.symm.trans hif)
  unfold conditionalAtLeastOneOfFn
  refine (returns_bind_of_run hif).trans ?_
  cases ifValue with
  | none =>
    refine iff_of_true (.done trivial) ⟨fun value h => (nomatch hread h), fun field value h => ?_⟩
    cases h with
    | ifMatchOf h => cases hread h
    | elseMatch h helse hnot => cases hread h
  | some ifValue =>
    have hthen : Ends (requireSome reader (some arg.thenAtLeastOneOf) arg.thenErr) ↔
        RequiresSome reader (some arg.thenAtLeastOneOf) arg.thenErr := by
      refine requireSome_returns fun names hnames n hn => hreader n ?_
      cases hnames
      simp [hn]
    have helse : ∀ accepted : Bool, Ends (if accepted = true then
          requireSome reader arg.elseThenAtLeastOneOf arg.elseThenErr
        else pure { ok := true }) ↔
          (accepted = true → RequiresSome reader arg.elseThenAtLeastOneOf arg.elseThenErr) := by
      intro accepted
      rw [← requireSome_returns fun names hnames n hn => hreader n (by simp [hnames, hn])]
      cases accepted <;> simp
    refine returns_bind.trans ((getSchemaField_returns _).trans ?_)
    refine (and_congr_right' accepts_bind).trans ?_
    rw [if_pos rfl, if_neg (by decide), hthen]
    constructor
    · rintro ⟨hnamed, hends, hthen, hnot⟩
      refine ⟨fun value h => ?_, fun field value htries => ?_⟩
      · cases hread h
        refine ⟨hnamed, hthen, fun hfalse elseMatch hmatch haccepted => ?_⟩
        have hnot := hnot hfalse
        rw [hmatch] at hnot
        exact (helse true).mp ((accepts_bind.mp hnot).2.1 haccepted) rfl
      · cases htries with
        | ifMatchOf h =>
          cases hread h
          exact hends
        | elseMatch h hmatch hfalse =>
          cases hread h
          have hnot := hnot hfalse
          rw [hmatch] at hnot
          exact (accepts_bind.mp hnot).1
    · rintro ⟨hcopes, htries⟩
      obtain ⟨hnamed, hthen, hnot⟩ := hcopes ifValue hif
      refine ⟨hnamed, htries _ _ (.ifMatchOf hif), hthen, fun hfalse => ?_⟩
      cases hmatch : arg.elseMatch with
      | none => exact .done trivial
      | some elseMatch =>
        refine accepts_bind.mpr ⟨htries _ _ (.elseMatch hif hmatch hfalse), fun haccepted => ?_,
          fun _ => (helse false).mpr nofun⟩
        exact (helse true).mpr fun _ => hnot hfalse elseMatch hmatch haccepted

theorem returns_of_untried {check : EntityCheck} {task : Validation CheckResult}
    (hends : Ends task) (hcopes : check.Copes std fields reader)
    (htries : ∀ field value, ¬ check.Tries std fields reader field value) :
    Ends task ↔ check.Copes std fields reader
      ∧ ∀ field value, check.Tries std fields reader field value →
        Ends (validateField field false value) :=
  iff_of_true hends ⟨hcopes, fun field value h => absurd h (htries field value)⟩

/-- **A checker returns** where it copes with its fields and its matches can
be tried. -/
theorem checker_returns {check : EntityCheck} {checkInput : CheckInput}
    (hreader : ∀ n ∈ (check.toCheck std fields).fieldsToCheck, Ends (checkInput.get n)) :
    Ends ((check.toCheck std fields).fn checkInput) ↔ check.Copes std fields checkInput.get
      ∧ ∀ field value, check.Tries std fields checkInput.get field value →
        Ends (validateField field false value) := by
  cases check with
  | atLeastOneOf names =>
    exact returns_of_untried ((someNonempty_returns hreader).bind fun found _ => by simp) trivial nofun
  | conditionalAtLeastOneOf arg =>
    rw [fieldsToCheck_conditionalAtLeastOneOf] at hreader
    exact conditionalAtLeastOneOfFn_returns hreader
  | onlyOneOf names =>
    exact returns_of_untried ((countNonempty_returns hreader).bind fun n _ => .done trivial) trivial nofun
  | distinct names =>
    exact returns_of_untried ((hasSame_returns hreader []).bind fun found _ => .done trivial) trivial nofun
  | conditional arg =>
    refine conditionalFn_returns (hreader _ ?_) (hreader _ ?_) <;>
      simp [EntityCheck.toCheck, Check.fieldsToCheck, SourceArg.fields]
  | customEntityCheck arg => exact returns_of_untried (.done trivial) trivial nofun
  | mutuallyRequired names =>
    have hreturns : Ends (mutuallyRequired checkInput.get names) :=
      (countNonempty_returns hreader).bind fun _ _ => .done trivial
    exact returns_of_untried (hreturns.bind fun _ _ => .done trivial) trivial nofun
  | mutuallyExclusive names =>
    exact returns_of_untried ((countNonempty_returns hreader).bind fun n _ => .done trivial) trivial nofun
  | mutuallyExclusiveSets set1 set2 =>
    have hsets : (EntityCheck.toCheck std fields (.mutuallyExclusiveSets set1 set2)).fieldsToCheck
        = set1 ++ set2 := by
      simp [EntityCheck.toCheck, Check.fieldsToCheck, SourceArg.fields]
    rw [hsets] at hreader
    have hset1 := nonemptyFields_returns fun n hn => hreader n (List.mem_append_left _ hn)
    have hset2 := nonemptyFields_returns fun n hn => hreader n (List.mem_append_right _ hn)
    refine returns_of_untried (hset1.bind fun nonempty1 _ => hset2.bind fun nonempty2 _ => ?_) trivial nofun
    simp

end

/-! ## The errors of checks -/

/-- The text for the name of a check, or of a validator that gives no error
of its own, takes one argument if there is one. -/
def HasText (name : Text) : Prop :=
  validationErrors (upper name) = none ∨ takes (upper name) 1 = true

/-- The names of checks and validators, but for `between`. -/
def textNames : List String :=
  ["at_least_one_of", "conditional_at_least_one_of", "only_one_of", "distinct", "conditional",
    "custom_entity_check", "mutually_required", "mutually_exclusive", "mutually_exclusive_sets",
    "eq", "ne", "gt", "len_eq", "len_min", "len_max", "match", "is_regex", "not_match",
    "match_all", "match_none", "match_any", "starts_with", "one_of", "not_one_of", "timestamp",
    "uuid", "contains", "mutually_exclusive_subsets", "custom_validator"]

theorem hasText : ∀ name ∈ textNames.map ofText, HasText name := by
  unfold HasText takes validationErrors
  rw [ofText_eq_ofAscii]
  decide +kernel

theorem EntityCheck.hasText (std : Std) (fields : List (Text × Field)) (check : EntityCheck) :
    HasText (check.toCheck std fields).name := by
  cases check <;> exact SchemaValidation.hasText _ (by simp [textNames, toCheck, SchemaValidation.atLeastOneOf])

theorem formatted_of_hasText {name fmt : Text} (h : HasText name)
    (hfmt : validationErrors (upper name) = some fmt) (arg : Text) : Ends (formatted fmt [arg]) := by
  rcases h with hnone | htakes
  · rw [hfmt] at hnone
    cases hnone
  · obtain ⟨_, n, hfmt', hholes, hn⟩ := takes_iff.mp htakes
    rw [hfmt] at hfmt'
    cases hfmt'
    exact formatted_returns.mpr ⟨n, hholes, hn⟩

/-- What a checker returns can be set in the errors: the way to the report is
free of texts, and so is the entry for the entity if the check fails. -/
structure Reports (errors : Errors) (result : CheckResult) : Prop where
  clear : ∀ n err, result.report = some (n, err) → Clear errors (parts n)
  entity : result.ok = false → ∀ errors',
    (addReport errors result.report).run validationErrors = .ok errors' →
    ∀ t, errors'.get (.name entityKey) ≠ some (.text t)

section

variable {std : Std} {fields : List (Text × Field)} {errors : Errors}

theorem insertEntityError_returns (err : Text) : Ends (insertEntityError errors err) ↔
    ∀ t, errors.get (.name entityKey) ≠ some (.text t) := by
  unfold insertEntityError
  rcases errors.get (.name entityKey) with _ | ⟨t | entries⟩ <;> simp

theorem failCheck_returns (check : EntityCheck) (result : CheckResult) :
    Ends (failCheck (check.toCheck std fields) result errors) ↔
      ∀ t, errors.get (.name entityKey) ≠ some (.text t) := by
  unfold failCheck
  cases result.err2 with
  | some err2 => exact insertEntityError_returns err2
  | none =>
    simp only [SchemaValidation.lookup, returns_bind, returns_look, returns_done]
    cases hfmt : validationErrors (upper (check.toCheck std fields).name) with
    | some fmt =>
      have hformatted := formatted_of_hasText (check.hasText std fields) hfmt
      refine returns_bind_iff.trans ⟨fun h => ?_, fun h => ⟨hformatted _, fun err _ => ?_⟩⟩
      · obtain ⟨err, hrun, -⟩ := h.1
        exact (insertEntityError_returns err).mp (h.2 err hrun)
      · exact (insertEntityError_returns err).mpr h
    | none =>
      cases result.err with
      | some err => exact insertEntityError_returns err
      | none =>
        have hmessage : ∀ name data, Ends (messageWith "ENTITY_CHECK" [name, data]) :=
          fun name data => messageWith_returns _ 2 (by simp [arguments]) le_rfl
        refine returns_bind_iff.trans ⟨fun h => ?_, fun h => ⟨hmessage _ _, fun err _ => ?_⟩⟩
        · obtain ⟨err, hrun, -⟩ := h.1
          exact (insertEntityError_returns err).mp (h.2 err hrun)
        · exact (insertEntityError_returns err).mpr h

theorem addReport_returns (report : Option (Text × Err)) : Ends (addReport errors report) ↔
    ∀ n err, report = some (n, err) → Clear errors (parts n) := by
  rcases report with _ | ⟨n, err⟩
  · exact iff_of_true (.done trivial) nofun
  · exact (setField_returns _ err).trans ⟨fun h n' err' heq => by cases heq; exact h,
      fun h => h n err rfl⟩

theorem runChecker_returns (check : EntityCheck) (checkInput : CheckInput) :
    Ends (runChecker (check.toCheck std fields) checkInput errors) ↔
      Ends ((check.toCheck std fields).fn checkInput) ∧ ∀ result,
        ((check.toCheck std fields).fn checkInput).run validationErrors = .ok result →
        Reports errors result := by
  refine returns_bind_iff.trans (and_congr_right fun _ => forall₂_congr fun result _ => ?_)
  refine returns_bind_iff.trans ⟨fun h => ⟨(addReport_returns _).mp h.1, fun hok => ?_⟩,
    fun h => ⟨(addReport_returns _).mpr h.clear, fun errors' hrun => ?_⟩⟩
  · intro errors' hrun
    have hfail := h.2 errors' hrun
    rw [if_neg (by simp [hok])] at hfail
    exact (failCheck_returns check result).mp hfail
  · split
    · exact .done trivial
    · rename_i hok
      exact (failCheck_returns check result).mpr (h.entity (by simpa using hok) errors' hrun)

theorem setMissing_returns (missing : List Text) : Ends (setMissing missing errors) ↔
    (∀ n ∈ missing, Clear errors (parts n))
      ∧ missing.Pairwise fun n n' => ¬ Below (parts n) (parts n') := by
  induction missing generalizing errors with
  | nil => exact iff_of_true (.done trivial) ⟨nofun, .nil⟩
  | cons name rest ih =>
    obtain ⟨text, htext, -⟩ := message_returns "REQUIRED_FOR_ENTITY_CHECK" (by simp [messages])
    refine (returns_bind_of_run htext).trans ?_
    rw [List.forall_mem_cons, List.pairwise_cons]
    by_cases hclear : Clear errors (parts name)
    · obtain ⟨errors', hset, hkeeps⟩ := clear_of_setField _ (parts_ne_nil name) text hclear
      refine (returns_bind_of_run hset).trans (ih.trans ?_)
      simp only [hkeeps, hclear, true_and]
      constructor
      · rintro ⟨h, hpairwise⟩
        exact ⟨fun n hn => (h n hn).1, fun n hn => (h n hn).2, hpairwise⟩
      · rintro ⟨h, hbelow, hpairwise⟩
        exact ⟨fun n hn => ⟨h n hn, hbelow n hn⟩, hpairwise⟩
    · refine iff_of_false (fun h => hclear ?_) fun h => hclear h.1.1
      exact (setField_returns _ _).mp (returns_bind_iff.mp h).1

end

/-! ## Running a check -/

/-- A check goes on with what it has found: no field holds a reference, no
field has an error unless the check runs all the same, and a field is there. -/
structure Check.Proceeds (fields : List (Text × Field)) (input : Value) (fullCheck : Bool)
    (errors : Errors) (check : Check) (found : Found) : Prop where
  finds : (findFields fields check input errors check.fieldsToCheck {}).run validationErrors
    = .ok found
  noReference : found.reference = false
  valid : found.allOk = true ∨ check.runWithInvalidFields = true
    ∨ check.argRunWithInvalidFields = true
  given : found.allNil = false ∨ check.runWithMissingFields = true ∧ fullCheck = true

section

variable (std : Std) (fields : List (Text × Field)) (input : Value) (fullCheck : Bool)
  (errors : Errors) (check : EntityCheck)

/-- A check comes to its checker, with all its fields. -/
def EntityCheck.Consults (found : Found) : Prop :=
  (check.toCheck std fields).Proceeds fields input fullCheck errors found ∧ found.missing = []

/-- The matches that running a check tries, with their values. -/
def EntityCheck.Attempts (field : Field) (value : Value) : Prop :=
  ∃ found, check.Consults std fields input fullCheck errors found
    ∧ check.Tries std fields found.checkInput.get field value

/-- A check that copes with the entity and with the errors that are there.
Fields that it misses can be set in the errors one after the other. -/
structure EntityCheck.Safe : Prop where
  walks : Walks fields (check.toCheck std fields) input [] (check.toCheck std fields).fieldsToCheck
  missing : ∀ found, (check.toCheck std fields).Proceeds fields input fullCheck errors found →
    (∀ n ∈ found.missing, Clear errors (parts n))
      ∧ found.missing.Pairwise fun n n' => ¬ Below (parts n) (parts n')
  copes : ∀ found, check.Consults std fields input fullCheck errors found →
    check.Copes std fields found.checkInput.get
  reports : ∀ found, check.Consults std fields input fullCheck errors found → ∀ result,
    ((check.toCheck std fields).fn found.checkInput).run validationErrors = .ok result →
    Reports errors result

end

section

variable {std : Std} {fields : List (Text × Field)} {input : Value} {fullCheck : Bool}
  {errors : Errors} {check : EntityCheck}

theorem unless_returns {α : Type} {P : α → Prop} {a : α} {task : Validation α} {c c' c'' : Prop}
    [Decidable c] [Decidable c'] [Decidable c''] (h : Totally task P → P a) :
    Totally (if c then pure a else if c' then pure a else if c'' then pure a else task) P ↔
      P a ∧ (¬ c → ¬ c' → ¬ c'' → Totally task P) := by
  by_cases hc : c
  · simp [hc]
  · by_cases hc' : c'
    · simp [hc, hc']
    · by_cases hc'' : c''
      · simp [hc, hc', hc'']
      · simpa [hc, hc', hc''] using h

/-- **Running a check** returns and stores nothing in the entity where the
check is safe and its matches can be validated. -/
theorem runEntityCheck_returns :
    Totally (runEntityCheck fields (check.toCheck std fields) input fullCheck errors [])
        (fun result => result.2 = []) ↔
      check.Safe std fields input fullCheck errors ∧ ∀ field value,
        check.Attempts std fields input fullCheck errors field value →
        Ends (validateField field false value) := by
  -- What comes after the loop over the fields.
  have hlast : ∀ found : Found, Totally (if (!found.missing.isEmpty) = true then do
        let errors ← setMissing found.missing errors
        return (errors, found.checkInput.stored)
      else do
        let errors ← runChecker (check.toCheck std fields) found.checkInput errors
        return (errors, found.checkInput.stored)) (fun result => result.2 = []) ↔
      found.checkInput.stored = [] ∧ Ends (setMissing found.missing errors)
        ∧ (found.missing = [] →
          Ends (runChecker (check.toCheck std fields) found.checkInput errors)) := by
    intro found
    simp only [returns_ite, returns_bind, returns_pure]
    cases found.missing with
    | nil =>
      refine ⟨fun h => ?_, fun h => ⟨by simp, fun _ => returns_const.mpr ⟨h.2.2 rfl, h.1⟩⟩⟩
      obtain ⟨hruns, hstored⟩ := returns_const.mp (h.2 (by simp))
      exact ⟨hstored, .done trivial, fun _ => hruns⟩
    | cons name rest =>
      refine ⟨fun h => ?_, fun h => ⟨fun _ => returns_const.mpr ⟨h.2.1, h.1⟩, fun h => absurd rfl h⟩⟩
      obtain ⟨hsets, hstored⟩ := returns_const.mp (h.1 rfl)
      exact ⟨hstored, hsets, by simp⟩
  have hproceeds : ∀ found : Found, (check.toCheck std fields).Proceeds fields input fullCheck
      errors found ↔ (findFields fields (check.toCheck std fields) input errors
        (check.toCheck std fields).fieldsToCheck {}).run validationErrors = .ok found
      ∧ ¬ found.reference = true
      ∧ ¬ (!found.allOk && !(check.toCheck std fields).runWithInvalidFields
        && !(check.toCheck std fields).argRunWithInvalidFields) = true
      ∧ ¬ (found.allNil && !((check.toCheck std fields).runWithMissingFields && fullCheck))
        = true := by
    intro found
    have hreference : found.reference = false ↔ ¬ found.reference = true := by simp
    constructor
    · rintro ⟨hfinds, hnone, hvalid, hgiven⟩
      refine ⟨hfinds, hreference.mp hnone, ?_, ?_⟩
      · grind
      · grind
    · rintro ⟨hfinds, hnone, hvalid, hgiven⟩
      refine ⟨hfinds, hreference.mpr hnone, ?_, ?_⟩
      · grind
      · grind
  have hchecker : ∀ found : Found, Finding input (check.toCheck std fields).fieldsToCheck found →
      (Ends (runChecker (check.toCheck std fields) found.checkInput errors) ↔
        check.Copes std fields found.checkInput.get
          ∧ (∀ field value, check.Tries std fields found.checkInput.get field value →
            Ends (validateField field false value))
          ∧ ∀ result, ((check.toCheck std fields).fn found.checkInput).run validationErrors
              = .ok result → Reports errors result) := by
    intro found hfound
    rw [runChecker_returns, checker_returns, and_assoc]
    exact fun n hn => hfound.projects.read (hfound.readable n hn)
  have hstart : Finding input [] {} := ⟨rfl, .empty, by simp⟩
  unfold runEntityCheck
  constructor
  · intro h
    obtain ⟨⟨found, hfinds, -⟩, hrest⟩ := returns_bind_iff.mp h
    have hsteps : ∀ found : Found, (findFields fields (check.toCheck std fields) input errors
        (check.toCheck std fields).fieldsToCheck {}).run validationErrors = .ok found →
        found.checkInput.stored = [] ∧
          ((check.toCheck std fields).Proceeds fields input fullCheck errors found →
            Ends (setMissing found.missing errors) ∧ (found.missing = [] →
              Ends (runChecker (check.toCheck std fields) found.checkInput errors))) := by
      intro found hfinds
      obtain ⟨hstored, hgoes⟩ :=
        (unless_returns fun h => ((hlast found).mp h).1).mp (hrest found hfinds)
      refine ⟨hstored, fun hproceed => ?_⟩
      obtain ⟨-, hnone, hvalid, hgiven⟩ := (hproceeds found).mp hproceed
      exact ((hlast found).mp (hgoes hnone hvalid hgiven)).2
    have hwalks := walks_of_returns _ hstart ⟨found, hfinds, (hsteps found hfinds).1⟩
    have hchecks : ∀ found, check.Consults std fields input fullCheck errors found → _ :=
      fun found hconsults => (hchecker found (by
        simpa using ((findFields_returns hwalks hstart).of_run hconsults.1.finds).2
          hconsults.1.noReference)).mp
        (((hsteps found hconsults.1.finds).2 hconsults.1).2 hconsults.2)
    refine ⟨⟨hwalks, fun found hproceed => ?_, fun found h => (hchecks found h).1,
      fun found h => (hchecks found h).2.2⟩, ?_⟩
    · exact (setMissing_returns _).mp ((hsteps found hproceed.finds).2 hproceed).1
    · rintro field value ⟨found, hconsults, htries⟩
      exact (hchecks found hconsults).2.1 field value htries
  · rintro ⟨hsafe, hattempts⟩
    have hfind := @findFields_returns _ _ _ errors _ _ hsafe.walks _ hstart
    refine returns_bind_iff.mpr ⟨hfind.mono fun _ _ => trivial, fun found hfinds => ?_⟩
    obtain ⟨hstored, hfinding⟩ := hfind.of_run hfinds
    refine (unless_returns fun h => ((hlast found).mp h).1).mpr
      ⟨hstored, fun hnone hvalid hgiven => (hlast found).mpr ⟨hstored, ?_⟩⟩
    have hproceed := (hproceeds found).mpr ⟨hfinds, hnone, hvalid, hgiven⟩
    refine ⟨(setMissing_returns _).mpr (hsafe.missing found hproceed), fun hmissing => ?_⟩
    have hconsults : check.Consults std fields input fullCheck errors found :=
      ⟨hproceed, hmissing⟩
    refine (hchecker found (by simpa using hfinding hproceed.noReference)).mpr
      ⟨hsafe.copes found hconsults, fun field value htries => ?_, hsafe.reports found hconsults⟩
    exact hattempts field value ⟨found, hconsults, htries⟩

theorem stored_of_runEntityCheck {check : Check} {stored : List (List Text)}
    {P : Errors × List (List Text) → Prop}
    (h : Totally (runEntityCheck fields check input fullCheck errors stored) P) :
    Totally (findFields fields check input errors check.fieldsToCheck
      { checkInput := { stored := stored } }) fun found =>
        ∃ errors', P (errors', found.checkInput.stored) := by
  refine (returns_bind.mp h).mono fun found h => ?_
  dsimp only at h
  split at h
  · exact ⟨errors, returns_pure.mp h⟩
  split at h
  · exact ⟨errors, returns_pure.mp h⟩
  split at h
  · exact ⟨errors, returns_pure.mp h⟩
  split at h
  · obtain ⟨errors', -, h⟩ := returns_bind.mp h
    exact ⟨errors', returns_pure.mp h⟩
  · obtain ⟨errors', -, h⟩ := returns_bind.mp h
    exact ⟨errors', returns_pure.mp h⟩

theorem stored_of_runChecks (checks : List Check) {errors : Errors} {stored : List (List Text)}
    (h : Totally (runChecks fields input fullCheck checks errors stored)
      fun result => result.2 = []) : stored = [] := by
  induction checks generalizing errors stored with
  | nil => simpa [runChecks] using h
  | cons check rest ih =>
    have hfirst := (returns_bind.mp h).mono fun result => ih
    exact stored_of_findFields _
      ((stored_of_runEntityCheck hfirst).mono fun found ⟨_, hstored⟩ => hstored)

/-- **Running the checks**, one on the errors that are there when it runs. -/
theorem runChecks_cons {check : Check} {rest : List Check} :
    Totally (runChecks fields input fullCheck (check :: rest) errors [])
        (fun result => result.2 = []) ↔
      Totally (runEntityCheck fields check input fullCheck errors [])
          (fun result => result.2 = [])
        ∧ ∀ errors', (runEntityCheck fields check input fullCheck errors []).run validationErrors
            = .ok (errors', []) →
          Totally (runChecks fields input fullCheck rest errors' []) fun result => result.2 = [] := by
  rw [runChecks]
  constructor
  · intro h
    have h := returns_bind.mp h
    exact ⟨h.mono fun result => stored_of_runChecks rest, fun errors' hrun => h.of_run hrun⟩
  · rintro ⟨⟨⟨errors', stored⟩, hrun, hstored⟩, hrest⟩
    cases hstored
    exact (returns_bind_of_run hrun).mpr (hrest errors' hrun)

end

end KongGateway.Kong.Db.SchemaValidation

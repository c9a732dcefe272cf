import KongGateway.Kong.Db.Schema.BuiltIn

/-!
# Paths — names with dots

`get_field`, `set_field` and `get_schema_field` walk the parts of a name.
Reading stops at a value that cannot be indexed, writing at a value that is
not a table, with an error in both cases. Writing to `check_input` below a
table of the entity is writing to the entity.
-/

namespace KongGateway.Kong.Db.SchemaValidation

open Bytes Coroutine

abbrev Totally {α : Type} (task : Validation α) (P : α → Prop) : Prop :=
  Returns validationErrors task P

/-- A validation that raises no error. -/
abbrev Ends {α : Type} (task : Validation α) : Prop := Totally task fun _ => True

/-! ## Reading -/

/-- Whether a value can be indexed. -/
def Value.isIndexable : Value → Bool
  | .str _ => true
  | value => value.isTable

theorem indexed_returns {value : Value} {name : Text} {P : Option Value → Prop} :
    Totally (indexed value name) P ↔ value.isIndexable = true ∧ P (value.entry name) := by
  cases value <;> simp [indexed, Value.isIndexable, Value.isTable]

/-- What `get_field` reads. -/
def valueAt : Option Value → List Text → Option Value
  | none, _ | some .null, _ => none
  | some value, [] => some value
  | some value, [name] => value.entry name
  | some value, hd :: tl => valueAt (value.entry hd) tl

/-- Every value that is indexed on the way can be. -/
def Readable : Option Value → List Text → Prop
  | none, _ | some .null, _ | some _, [] => True
  | some value, hd :: tl => value.isIndexable = true ∧ Readable (value.entry hd) tl

@[simp] theorem readable_nil (value : Option Value) : Readable value [] := by
  cases value with
  | none => trivial
  | some value => cases value <;> trivial

theorem getField_returns (path : List Text) {value : Option Value} {P : Option Value → Prop} :
    Totally (getField value path) P ↔ Readable value path ∧ P (valueAt value path) := by
  induction path generalizing value with
  | nil => rcases value with _ | _ | _ <;> simp [getField, Readable, valueAt]
  | cons hd tl ih =>
    rcases value with _ | value
    · simp [getField, Readable, valueAt]
    · cases tl with
      | nil =>
        cases value <;> simp [getField, Readable, valueAt, indexed_returns]
      | cons next rest =>
        cases value <;> simp [getField, Readable, valueAt, indexed_returns, ih, and_assoc]

theorem valueAt_append {before rest : List Text} (hbefore : before ≠ []) (hrest : rest ≠ [])
    (value : Option Value) :
    valueAt value (before ++ rest) = valueAt (valueAt value before) rest := by
  induction before generalizing value with
  | nil => exact absurd rfl hbefore
  | cons hd tl ih =>
    have hnone : ∀ path : List Text, valueAt none path = none := fun _ => by
      rw [valueAt]
    rcases value with _ | value
    · rw [hnone, hnone, hnone]
    · by_cases hnull : value = .null
      · rw [hnull]
        rw [valueAt, valueAt, hnone]
      · cases tl with
        | nil =>
          obtain ⟨next, rest, rfl⟩ := List.exists_cons_of_ne_nil hrest
          cases value with
          | null => exact absurd rfl hnull
          | _ => rfl
        | cons next tl =>
          have htail := ih (List.cons_ne_nil next tl) (value.entry hd)
          cases value with
          | null => exact absurd rfl hnull
          | _ => exact htail

theorem readable_none (path : List Text) : Readable none path := by
  cases path <;> trivial

theorem readable_append {before rest : List Text} (hbefore : before ≠ [])
    {value : Option Value} (h : Readable value (before ++ rest)) :
    Readable value before ∧ Readable (valueAt value before) rest := by
  induction before generalizing value with
  | nil => exact absurd rfl hbefore
  | cons hd tl ih =>
    rcases value with _ | value
    · refine ⟨trivial, ?_⟩
      rw [valueAt]
      exact readable_none rest
    · by_cases hnull : value = .null
      · rw [hnull]
        refine ⟨trivial, ?_⟩
        rw [valueAt]
        exact readable_none rest
      · have hread : value.isIndexable = true ∧ Readable (value.entry hd) (tl ++ rest) := by
          cases value with
          | null => exact absurd rfl hnull
          | _ => exact h
        cases tl with
        | nil =>
          cases value with
          | null => exact absurd rfl hnull
          | _ => exact ⟨⟨hread.1, readable_nil _⟩, hread.2⟩
        | cons next tl =>
          have htail := ih (List.cons_ne_nil next tl) hread.2
          cases value with
          | null => exact absurd rfl hnull
          | _ => exact ⟨⟨hread.1, htail.1⟩, htail.2⟩

/-- The definition that a name leads to. -/
def fieldAt : List (Text × Field) → List Text → Option Field
  | _, [] => none
  | fields, [name] => fields.lookup name
  | fields, hd :: tl =>
    match fields.lookup hd with
    | some (.mk _ (.record _ inner)) => fieldAt inner.fields tl
    | _ => none

/-- A name leads through records alone. -/
def Named : List (Text × Field) → List Text → Prop
  | _, [] | _, [_] => True
  | fields, hd :: tl =>
    match fields.lookup hd with
    | none => True
    | some (.mk _ (.record _ inner)) => Named inner.fields tl
    | some _ => False

theorem getSchemaField_returns (path : List Text) {fields : List (Text × Field)}
    {P : Option Field → Prop} :
    Totally (getSchemaField fields path) P ↔ Named fields path ∧ P (fieldAt fields path) := by
  induction path generalizing fields with
  | nil => simp [getSchemaField, Named, fieldAt]
  | cons hd tl ih =>
    cases tl with
    | nil => simp [getSchemaField, Named, fieldAt]
    | cons next rest =>
      unfold Named getSchemaField fieldAt
      rcases fields.lookup hd with _ | ⟨attrs, type⟩
      · simp
      · cases type with
        | record processAutoFields inner => exact ih
        | _ => simp

/-- A name that goes on after another one. -/
def Below (path path' : List Text) : Prop := path <+: path' ∧ path ≠ path'

theorem below_cons {hd hd' : Text} {path path' : List Text} :
    Below (hd :: path) (hd' :: path') ↔ hd = hd' ∧ Below path path' := by
  unfold Below
  rw [List.cons_prefix_cons]
  constructor
  · rintro ⟨⟨rfl, hbefore⟩, hne⟩
    exact ⟨rfl, hbefore, fun heq => hne (by rw [heq])⟩
  · rintro ⟨rfl, hbefore, hne⟩
    exact ⟨⟨rfl, hbefore⟩, fun heq => hne (List.cons.inj heq).2⟩

/-! ## Writing to the projection -/

/-- The parts before the last one lead through tables of the projection. -/
def Open : Projections → List Text → Prop
  | _, [] | _, [_] => True
  | entries, hd :: tl =>
    match entries.lookup hd with
    | none => True
    | some (.table subtbl) => Open subtbl tl
    | some (.value _) => False

/-- The table that a name goes on in. -/
def subtable (entries : Projections) (hd : Text) : Projections :=
  match entries.lookup hd with
  | some (.table subtbl) => subtbl
  | _ => []

/-- A value of the entity; none for a table of the projection. -/
def Projection.own : Projection → Option Value
  | .value v => some v
  | .table _ => none

/-- What is at the end of a way through tables of the projection. -/
def shownAt : Projections → List Text → Option (Option Value)
  | _, [] => none
  | entries, [name] => (entries.lookup name).map Projection.own
  | entries, hd :: tl => shownAt (subtable entries hd) tl

theorem subtable_of_value {entries : Projections} {hd : Text} {v : Value}
    (h : entries.lookup hd = some (.value v)) : subtable entries hd = [] := by
  unfold subtable
  rw [h]

theorem subtable_of_table {entries subtbl : Projections} {hd : Text}
    (h : entries.lookup hd = some (.table subtbl)) : subtable entries hd = subtbl := by
  unfold subtable
  rw [h]

theorem open_nil (path : List Text) : Open [] path := by
  rcases path with _ | ⟨hd, _ | ⟨next, rest⟩⟩ <;> trivial

theorem shownAt_nil (path : List Text) : shownAt [] path = none := by
  induction path with
  | nil => rfl
  | cons hd tl ih =>
    cases tl with
    | nil => rfl
    | cons next rest => exact ih

theorem getProjection_nil (path : List Text) : getProjection [] path = .done none := by
  rcases path with _ | ⟨hd, _ | ⟨next, rest⟩⟩ <;> rfl

theorem open_cons {entries : Projections} {hd next : Text} {rest : List Text} :
    Open entries (hd :: next :: rest) ↔
      (∀ v, entries.lookup hd ≠ some (.value v)) ∧ Open (subtable entries hd) (next :: rest) := by
  rw [Open]
  · unfold subtable
    rcases entries.lookup hd with _ | ⟨v | subtbl⟩
    · simp [open_nil]
    · simp
    · simp
  · exact List.cons_ne_nil next rest

theorem open_or_through (path : List Text) (entries : Projections) :
    Open entries path ∨ ∃ before v rest, path = before ++ rest ∧ rest ≠ []
      ∧ shownAt entries before = some (some v) := by
  induction path generalizing entries with
  | nil => exact .inl trivial
  | cons hd tl ih =>
    cases tl with
    | nil => exact .inl trivial
    | cons next rest =>
      rcases hlookup : entries.lookup hd with _ | ⟨v | subtbl⟩
      · refine .inl (open_cons.mpr ⟨fun v => by simp [hlookup], ?_⟩)
        unfold subtable
        rw [hlookup]
        exact open_nil _
      · refine .inr ⟨[hd], v, next :: rest, rfl, List.cons_ne_nil next rest, ?_⟩
        simp [shownAt, hlookup, Projection.own]
      · have hsub := subtable_of_table hlookup
        rcases ih subtbl with hopen | ⟨before, v, rest', hpath, hrest, hshown⟩
        · exact .inl (open_cons.mpr ⟨fun v => by simp [hlookup], hsub ▸ hopen⟩)
        · refine .inr ⟨hd :: before, v, rest', by rw [hpath]; rfl, hrest, ?_⟩
          cases before with
          | nil => cases hshown
          | cons next' before =>
            rw [shownAt, hsub]
            · exact hshown
            · exact List.cons_ne_nil next' before

theorem below_value {before rest : List Text} {entries : Projections} {v : Value}
    (hrest : rest ≠ []) (h : shownAt entries before = some (some v)) :
    shownAt entries (before ++ rest) = none ∧ ¬ Open entries (before ++ rest) := by
  induction before generalizing entries with
  | nil => cases h
  | cons hd tl ih =>
    cases tl with
    | nil =>
      obtain ⟨next, rest, rfl⟩ := List.exists_cons_of_ne_nil hrest
      rcases hlookup : entries.lookup hd with _ | ⟨w | subtbl⟩
      · simp [shownAt, hlookup] at h
      · refine ⟨?_, fun hopen => (open_cons.mp hopen).1 w hlookup⟩
        change shownAt (subtable entries hd) (next :: rest) = none
        rw [subtable_of_value hlookup]
        exact shownAt_nil _
      · simp [shownAt, hlookup, Projection.own] at h
    | cons next tl =>
      obtain ⟨hshown, hopen⟩ := @ih (subtable entries hd) h
      exact ⟨hshown, fun h => hopen (open_cons.mp h).2⟩

theorem getProjection_of_open (path : List Text) {entries : Projections} (h : Open entries path) :
    Ends (getProjection entries path) := by
  induction path generalizing entries with
  | nil => exact .done trivial
  | cons hd tl ih =>
    cases tl with
    | nil => exact .done trivial
    | cons next rest =>
      obtain ⟨hvalue, hopen⟩ := open_cons.mp h
      have hread : getProjection entries (hd :: next :: rest)
          = getProjection (subtable entries hd) (next :: rest) := by
        rw [getProjection]
        · unfold subtable
          rcases hlookup : entries.lookup hd with _ | ⟨v | subtbl⟩
          · exact (getProjection_nil _).symm
          · exact absurd hlookup (hvalue v)
          · rfl
        · exact List.cons_ne_nil next rest
      rw [hread]
      exact ih hopen

theorem getProjection_through {before rest : List Text} {entries : Projections} {v : Value}
    (hrest : rest ≠ []) (h : shownAt entries before = some (some v)) :
    getProjection entries (before ++ rest) = getField (some v) rest := by
  induction before generalizing entries with
  | nil => cases h
  | cons hd tl ih =>
    cases tl with
    | nil =>
      obtain ⟨next, rest, rfl⟩ := List.exists_cons_of_ne_nil hrest
      change getProjection entries (hd :: next :: rest) = _
      rw [getProjection]
      · rcases hlookup : entries.lookup hd with _ | ⟨w | subtbl⟩
        · simp [shownAt, hlookup] at h
        · simp only [shownAt, hlookup, Option.map_some, Projection.own, Option.some.injEq] at h
          rw [h]
        · simp [shownAt, hlookup, Projection.own] at h
      · exact List.cons_ne_nil next rest
    | cons next tl =>
      change shownAt (subtable entries hd) (next :: tl) = _ at h
      rw [← ih h]
      change getProjection entries (hd :: next :: (tl ++ rest)) = _
      rw [getProjection]
      · rcases hlookup : entries.lookup hd with _ | ⟨w | subtbl⟩
        · unfold subtable at h
          rw [hlookup, shownAt_nil] at h
          cases h
        · rw [subtable_of_value hlookup, shownAt_nil] at h
          cases h
        · rw [subtable_of_table hlookup]
          rfl
      · exact List.cons_ne_nil next (tl ++ rest)

section

variable (input : Value) (value : Option Value)

theorem setProjection_cons {start : List Text} {stored : List (List Text)} {entries : Projections}
    {hd next : Text} {rest : List Text} (h : ∀ v, entries.lookup hd ≠ some (.value v)) :
    setProjection input value start stored entries (hd :: next :: rest) =
      (setProjection input value (start ++ [hd]) stored (subtable entries hd) (next :: rest) >>=
        fun subtbl =>
          pure (OrderedTable.set entries hd (some (.table subtbl.1)), subtbl.2)) := by
  rw [setProjection]
  · unfold subtable
    rcases hlookup : entries.lookup hd with _ | ⟨v | subtbl⟩
    · rfl
    · exact absurd hlookup (h v)
    · rfl
  · exact List.cons_ne_nil next rest

theorem subtable_set_self (entries subtbl : Projections) (hd : Text) :
    subtable (OrderedTable.set entries hd (some (.table subtbl))) hd = subtbl :=
  subtable_of_table (by rw [OrderedTable.lookup_set, if_pos rfl])

theorem subtable_set_ne (entries : Projections) {hd hd' : Text} (h : hd' ≠ hd)
    (projection : Option Projection) :
    subtable (OrderedTable.set entries hd projection) hd' = subtable entries hd' := by
  unfold subtable
  rw [OrderedTable.lookup_set, if_neg h]

theorem shownAt_set_ne (entries : Projections) {hd hd' : Text} (h : hd' ≠ hd)
    (projection : Option Projection) (tl : List Text) :
    shownAt (OrderedTable.set entries hd projection) (hd' :: tl) = shownAt entries (hd' :: tl) := by
  cases tl with
  | nil =>
    unfold shownAt
    rw [OrderedTable.lookup_set, if_neg h]
  | cons next rest =>
    change shownAt (subtable _ hd') (next :: rest) = shownAt (subtable entries hd') (next :: rest)
    rw [subtable_set_ne entries h]

/-- What writing to a part of the projection does: the value is shown at the
end of the way, tables on it, nothing below it, and what was shown elsewhere. -/
structure Written (entries entries' : Projections) (path : List Text) : Prop where
  self : shownAt entries' path = value.map some
  below : ∀ path', Below path path' → shownAt entries' path' = none
  above : ∀ path', path' ≠ [] → Below path' path → shownAt entries' path' = some none
  frame : ∀ path', ¬ path <+: path' → ¬ path' <+: path →
    shownAt entries' path' = shownAt entries path'

theorem setProjection_of_open (path : List Text) (hpath : path ≠ []) (start : List Text)
    {stored : List (List Text)} {entries : Projections} (h : Open entries path) :
    ∃ entries', setProjection input value start stored entries path = .done (entries', stored)
      ∧ Written value entries entries' path := by
  induction path generalizing start entries with
  | nil => exact absurd rfl hpath
  | cons hd tl ih =>
    cases tl with
    | nil =>
      have hself : (OrderedTable.set entries hd (value.map .value)).lookup hd
          = value.map .value := by rw [OrderedTable.lookup_set, if_pos rfl]
      refine ⟨_, rfl, ?_, ?_, ?_, ?_⟩
      · rw [shownAt, hself]
        cases value <;> rfl
      · rintro path' ⟨⟨rest, rfl⟩, hne⟩
        cases rest with
        | nil => exact absurd rfl hne
        | cons next rest =>
          change shownAt (subtable _ hd) (next :: rest) = none
          have hempty : subtable (OrderedTable.set entries hd (value.map .value)) hd = [] := by
            unfold subtable
            rw [hself]
            cases value <;> rfl
          rw [hempty]
          exact shownAt_nil _
      · rintro path' hne ⟨hbefore, hdiffer⟩
        obtain ⟨hd', tl', rfl⟩ := List.exists_cons_of_ne_nil hne
        obtain ⟨rfl, htl⟩ := List.cons_prefix_cons.mp hbefore
        exact absurd (by rw [List.prefix_nil.mp htl]) hdiffer
      · intro path' hbefore hafter
        rcases path' with _ | ⟨hd', tl'⟩
        · exact absurd List.nil_prefix hafter
        · refine shownAt_set_ne entries (fun heq => hbefore ?_) _ tl'
          rw [heq]
          exact List.cons_prefix_cons.mpr ⟨rfl, List.nil_prefix⟩
    | cons next rest =>
      obtain ⟨hvalue, hopen⟩ := open_cons.mp h
      obtain ⟨subtbl, hset, hwritten⟩ := ih (List.cons_ne_nil next rest) (start ++ [hd]) hopen
      have hsub : ∀ next' rest', shownAt
          (OrderedTable.set entries hd (some (.table subtbl))) (hd :: next' :: rest')
            = shownAt subtbl (next' :: rest') := by
        intro next' rest'
        change shownAt (subtable _ hd) (next' :: rest') = _
        rw [subtable_set_self]
      have htable : shownAt (OrderedTable.set entries hd (some (.table subtbl))) [hd]
          = some none := by
        rw [shownAt, OrderedTable.lookup_set, if_pos rfl]
        rfl
      refine ⟨OrderedTable.set entries hd (some (.table subtbl)), ?_, ?_, ?_, ?_, ?_⟩
      · rw [setProjection_cons input value hvalue, hset]
        rfl
      · rw [hsub]
        exact hwritten.self
      · intro path' hbelow
        obtain ⟨hd', tl', rfl⟩ := List.exists_cons_of_ne_nil fun heq : path' = [] => by
          rw [heq] at hbelow
          exact absurd (List.prefix_nil.mp hbelow.1) (List.cons_ne_nil _ _)
        obtain ⟨rfl, htl⟩ := List.cons_prefix_cons.mp hbelow.1
        cases tl' with
        | nil => exact absurd (List.prefix_nil.mp htl) (List.cons_ne_nil _ _)
        | cons next' rest' =>
          rw [hsub]
          exact hwritten.below _ ⟨htl, fun heq => hbelow.2 (by rw [heq])⟩
      · rintro path' hne ⟨hbefore, hdiffer⟩
        obtain ⟨hd', tl', rfl⟩ := List.exists_cons_of_ne_nil hne
        obtain ⟨rfl, htl⟩ := List.cons_prefix_cons.mp hbefore
        cases tl' with
        | nil => exact htable
        | cons next' rest' =>
          rw [hsub]
          exact hwritten.above _ (List.cons_ne_nil _ _)
            ⟨htl, fun heq => hdiffer (by rw [heq])⟩
      · intro path' hbefore hafter
        rcases path' with _ | ⟨hd', tl'⟩
        · exact absurd List.nil_prefix hafter
        · by_cases heq : hd' = hd
          · rw [heq] at hbefore hafter ⊢
            cases tl' with
            | nil => exact absurd (List.cons_prefix_cons.mpr ⟨rfl, List.nil_prefix⟩) hafter
            | cons next' rest' =>
              rw [hsub]
              exact hwritten.frame _
                (fun hp => hbefore (List.cons_prefix_cons.mpr ⟨rfl, hp⟩))
                (fun hp => hafter (List.cons_prefix_cons.mpr ⟨rfl, hp⟩))
          · exact shownAt_set_ne entries heq _ tl'

theorem setProjection_through {before rest start : List Text} {stored : List (List Text)}
    {entries : Projections} {v : Value} (hrest : rest ≠ [])
    (h : shownAt entries before = some (some v)) :
    ∃ entries', (∀ path, shownAt entries' path = shownAt entries path)
      ∧ ∀ P : Projections × List (List Text) → Prop,
        Totally (setProjection input value start stored entries (before ++ rest)) P
          ↔ v.isTable = true ∧ Totally (storeBelow input (start ++ before) stored rest)
            fun stored => P (entries', stored) := by
  induction before generalizing start entries with
  | nil => cases h
  | cons hd tl ih =>
    cases tl with
    | nil =>
      obtain ⟨next, rest, rfl⟩ := List.exists_cons_of_ne_nil hrest
      refine ⟨entries, fun _ => rfl, fun P => ?_⟩
      change Totally (setProjection input value start stored entries (hd :: next :: rest)) _ ↔ _
      rw [setProjection]
      · rcases hlookup : entries.lookup hd with _ | ⟨w | subtbl⟩
        · simp [shownAt, hlookup] at h
        · simp only [shownAt, hlookup, Option.map_some, Projection.own, Option.some.injEq] at h
          by_cases htable : v.isTable = true <;> simp [h, htable]
        · simp [shownAt, hlookup, Projection.own] at h
      · exact List.cons_ne_nil next rest
    | cons next tl =>
      change shownAt (subtable entries hd) (next :: tl) = _ at h
      have hlookup : ∃ subtbl, entries.lookup hd = some (.table subtbl) := by
        unfold subtable at h
        rcases hlookup : entries.lookup hd with _ | ⟨w | subtbl⟩
        · rw [hlookup, shownAt_nil] at h
          cases h
        · rw [hlookup, shownAt_nil] at h
          cases h
        · exact ⟨subtbl, rfl⟩
      obtain ⟨subtbl, hlookup⟩ := hlookup
      obtain ⟨subtbl', hsame, hset⟩ := @ih (start ++ [hd]) _ h
      rw [subtable_of_table hlookup] at hset hsame
      refine ⟨OrderedTable.set entries hd (some (.table subtbl')), fun path => ?_, fun P => ?_⟩
      · rcases path with _ | ⟨hd', tl'⟩
        · rfl
        · by_cases heq : hd' = hd
          · rw [heq]
            cases tl' with
            | nil =>
              rw [shownAt, shownAt, OrderedTable.lookup_set, if_pos rfl, hlookup]
              rfl
            | cons next' rest' =>
              change shownAt (subtable _ hd) (next' :: rest')
                = shownAt (subtable entries hd) (next' :: rest')
              rw [subtable_set_self, subtable_of_table hlookup]
              exact hsame _
          · exact shownAt_set_ne entries heq _ tl'
      · change Totally (setProjection input value start stored entries
          (hd :: next :: (tl ++ rest))) _ ↔ _
        rw [setProjection_cons input value (by simp [hlookup]), subtable_of_table hlookup]
        have hset := hset fun set => P (OrderedTable.set entries hd (some (.table set.1)), set.2)
        simpa only [returns_bind, returns_pure, List.append_assoc, List.cons_append,
          List.nil_append] using hset

end

/-! ## The projection of several fields -/

/-- What is below a field of the entity is in tables that are there. -/
def Through (input : Value) (field path : List Text) : Prop :=
  Below field path → valueAt (some input) field = none
    ∨ ∀ path', field <+: path' → Below path' path →
      ∃ v, valueAt (some input) path' = some v ∧ v.isTable = true

section

variable {input : Value}

theorem getEntity_returns {path : List Text} {P : Option Value → Prop} :
    Totally (getEntity input [] path) P ↔
      Readable (some input) path ∧ P (valueAt (some input) path) :=
  getField_returns path

theorem stored_of_storeBelow (rest : List Text) {path : List Text} {stored : List (List Text)}
    (h : Totally (storeBelow input path stored rest) fun stored' => stored' = []) :
    stored = [] := by
  induction rest generalizing path stored with
  | nil => simpa [storeBelow] using h
  | cons hd tl ih =>
    cases tl with
    | nil => simpa [storeBelow] using h
    | cons next rest =>
      rw [storeBelow] at h
      · simp only [returns_bind] at h
        obtain ⟨value, -, h⟩ := h
        cases value with
        | none => exact absurd (ih h) (by simp)
        | some value => exact ih ((returns_ite.mp h).1 (by_contra fun htable => by simp_all))
      · exact List.cons_ne_nil next rest

theorem below_append_cons {before path' tl : List Text} {hd : Text} (h : before <+: path')
    (hbelow : Below path' (before ++ hd :: tl)) : path' = before ∨ before ++ [hd] <+: path' := by
  obtain ⟨rest, rfl⟩ := h
  cases rest with
  | nil => exact .inl (List.append_nil before)
  | cons hd' rest =>
    obtain ⟨rfl, -⟩ := List.cons_prefix_cons.mp ((List.prefix_append_right_inj before).mp hbelow.1)
    exact .inr ⟨rest, by simp⟩

theorem storeBelow_returns (rest : List Text) {before : List Text} (hbefore : before ≠ [])
    (hread : Readable (some input) (before ++ rest))
    (htable : ∃ v, valueAt (some input) before = some v ∧ v.isTable = true) :
    Totally (storeBelow input before [] rest) (fun stored => stored = []) ↔
      ∀ path', before <+: path' → Below path' (before ++ rest) →
        ∃ v, valueAt (some input) path' = some v ∧ v.isTable = true := by
  induction rest generalizing before with
  | nil =>
    refine iff_of_true (.done rfl) fun path' hpath' hbelow => ?_
    rw [List.append_nil] at hbelow
    exact absurd (hbelow.1.eq_of_length_le hpath'.length_le) hbelow.2
  | cons hd tl ih =>
    cases tl with
    | nil =>
      refine iff_of_true (.done rfl) fun path' hpath' hbelow => ?_
      rcases below_append_cons hpath' hbelow with rfl | hlast
      · exact htable
      · exact absurd (hbelow.1.eq_of_length_le hlast.length_le) hbelow.2
    | cons next rest =>
      have happend : before ++ hd :: next :: rest = (before ++ [hd]) ++ next :: rest := by simp
      have hne : before ++ [hd] ≠ [] := by simp
      have hlast : Below (before ++ [hd]) (before ++ hd :: next :: rest) :=
        ⟨by rw [happend]; exact List.prefix_append _ _, by simp⟩
      rw [happend] at hread
      rw [storeBelow]
      · simp only [returns_bind, getEntity_returns, (readable_append hne hread).1, true_and]
        cases hvalue : valueAt (some input) (before ++ [hd]) with
        | none =>
          refine iff_of_false (fun h => absurd (stored_of_storeBelow _ h) (by simp)) fun h => ?_
          obtain ⟨v, hv, -⟩ := h _ (List.prefix_append _ _) hlast
          rw [hvalue] at hv
          cases hv
        | some v =>
          by_cases hv : v.isTable = true
          · simp only [if_pos hv]
            refine (ih hne hread ⟨v, hvalue, hv⟩).trans ?_
            rw [← happend]
            constructor
            · intro h path' hpath' hbelow
              rcases below_append_cons hpath' hbelow with rfl | hpath'
              · exact htable
              · exact h path' hpath' hbelow
            · intro h path' hpath'
              exact h path' ((List.prefix_append _ _).trans hpath')
          · simp only [if_neg hv]
            refine iff_of_false not_returns_raise fun h => ?_
            obtain ⟨w, hw, htable⟩ := h _ (List.prefix_append _ _) hlast
            rw [hvalue] at hw
            cases hw
            exact hv htable
      · exact List.cons_ne_nil next rest

variable (input) in
/-- The projection of some fields: the values are the entity's, and all are
there. -/
structure Projects (fields : List (List Text)) (entries : Projections) : Prop where
  agrees : ∀ path v, shownAt entries path = some (some v) →
    path ∈ fields ∧ valueAt (some input) path = some v
  covered : ∀ path ∈ fields, ∀ v, valueAt (some input) path = some v →
    ∃ before, before <+: path ∧ ∃ w, shownAt entries before = some (some w)

theorem Projects.empty : Projects input [] [] where
  agrees path v h := by
    rw [shownAt_nil] at h
    cases h
  covered path h := by cases h

theorem valueAt_eq_none {path path' : List Text} (hpath : path ≠ []) (h : path <+: path')
    (hnone : valueAt (some input) path = none) : valueAt (some input) path' = none := by
  obtain ⟨rest, rfl⟩ := h
  cases rest with
  | nil => rwa [List.append_nil]
  | cons next rest =>
    rw [valueAt_append hpath (List.cons_ne_nil next rest), hnone, valueAt]

theorem Projects.of_written {fields : List (List Text)} {entries entries' : Projections}
    (h : Projects input fields entries) {path : List Text} (hopen : Open entries path)
    (hwritten : Written (valueAt (some input) path) entries entries' path)
    (hpath : path ≠ []) : Projects input (fields ++ [path]) entries' where
  agrees := by
    intro path' v hv
    by_cases hbefore : path <+: path'
    · by_cases heq : path = path'
      · subst heq
        rw [hwritten.self] at hv
        obtain ⟨w, hw, hsome⟩ := Option.map_eq_some_iff.mp hv
        cases hsome
        exact ⟨by simp, hw⟩
      · rw [hwritten.below path' ⟨hbefore, heq⟩] at hv
        cases hv
    · by_cases hafter : path' <+: path
      · by_cases hne : path' = []
        · rw [hne] at hv
          cases hv
        · rw [hwritten.above path' hne ⟨hafter, fun heq => hbefore (by rw [heq])⟩] at hv
          cases hv
      · rw [hwritten.frame path' hbefore hafter] at hv
        obtain ⟨hmem, hvalue⟩ := h.agrees path' v hv
        exact ⟨List.mem_append_left _ hmem, hvalue⟩
  covered := by
    intro path' hmem v hv
    have hself : path <+: path' → ∃ before, before <+: path'
        ∧ ∃ w, shownAt entries' before = some (some w) := by
      intro hp
      obtain ⟨w, hw⟩ := Option.ne_none_iff_exists'.mp fun hnone : valueAt (some input) path = none => by
        rw [valueAt_eq_none hpath hp hnone] at hv
        cases hv
      exact ⟨path, hp, w, by rw [hwritten.self, hw]; rfl⟩
    by_cases hp : path <+: path'
    · exact hself hp
    · rcases List.mem_append.mp hmem with hmem | hmem
      · obtain ⟨before, hbefore, w, hw⟩ := h.covered path' hmem v hv
        by_cases hp' : path <+: before
        · exact hself (hp'.trans hbefore)
        · by_cases hafter : before <+: path
          · obtain ⟨rest, rfl⟩ := hafter
            by_cases hrest : rest = []
            · exact absurd (by rw [hrest, List.append_nil]) hp'
            · exact absurd hopen (below_value hrest hw).2
          · exact ⟨before, hbefore, w, by rw [hwritten.frame before hp' hafter, hw]⟩
      · exact absurd (by rw [List.mem_singleton.mp hmem]) hp

/-- **Projecting one more field** writes nothing to the entity where what is
below earlier fields is in tables. -/
theorem Projects.write {fields : List (List Text)} {entries : Projections}
    (h : Projects input fields entries) {path : List Text} (hpath : path ≠ [])
    (hread : Readable (some input) path) :
    ∃ entries', Projects input (fields ++ [path]) entries' ∧ ∀ P : Projections → Prop,
      Totally (setProjection input (valueAt (some input) path) [] [] entries path)
          (fun set => set.2 = [] ∧ P set.1)
        ↔ (∀ field ∈ fields, Through input field path) ∧ P entries' := by
  -- A field with a value is at or below one that is shown.
  have hshown_of : ∀ field ∈ fields, valueAt (some input) field ≠ none →
      ∃ before, before <+: field ∧ ∃ w, shownAt entries before = some (some w) := by
    intro field hfield hvalue
    obtain ⟨v, hv⟩ := Option.ne_none_iff_exists'.mp hvalue
    exact h.covered field hfield v hv
  rcases open_or_through path entries with hopen | ⟨before, v, rest, rfl, hrest, hshown⟩
  · obtain ⟨entries', hset, hwritten⟩ :=
      @setProjection_of_open input (valueAt (some input) path) path hpath [] [] _ hopen
    refine ⟨entries', h.of_written hopen hwritten hpath, fun P => ?_⟩
    have hthrough : ∀ field ∈ fields, Through input field path := by
      intro field hfield hbelow
      by_contra hnot
      obtain ⟨before, ⟨rest, rfl⟩, w, hw⟩ := hshown_of field hfield (not_or.mp hnot).1
      obtain ⟨rest', rfl⟩ := hbelow.1
      rw [List.append_assoc] at hopen hbelow
      exact (below_value (fun heq => hbelow.2 (by simp_all)) hw).2 hopen
    rw [hset]
    exact returns_done.trans ⟨fun h => ⟨hthrough, h.2⟩, fun h => ⟨rfl, h.2⟩⟩
  · have hbefore : before ≠ [] := by
      rintro rfl
      cases hshown
    obtain ⟨hmem, hv⟩ := h.agrees before v hshown
    obtain ⟨entries', hsame, hset⟩ := @setProjection_through input
      (valueAt (some input) (before ++ rest)) before rest [] [] entries v hrest hshown
    refine ⟨entries', ⟨fun path' v hv => ?_, fun path' hmem v' hv' => ?_⟩, fun P => ?_⟩
    · rw [hsame] at hv
      obtain ⟨hmem, hvalue⟩ := h.agrees path' v hv
      exact ⟨List.mem_append_left _ hmem, hvalue⟩
    · rcases List.mem_append.mp hmem with hmem | hmem
      · obtain ⟨before', hbefore', w, hw⟩ := h.covered path' hmem v' hv'
        exact ⟨before', hbefore', w, by rw [hsame, hw]⟩
      · rw [List.mem_singleton.mp hmem]
        exact ⟨before, List.prefix_append _ _, v, by rw [hsame, hshown]⟩
    · have hbelow : Below before (before ++ rest) := ⟨List.prefix_append _ _, by simp [hrest]⟩
      rw [hset]
      constructor
      · rintro ⟨htable, hstore⟩
        have htables := (storeBelow_returns rest hbefore hread ⟨v, hv, htable⟩).mp
          (hstore.mono fun _ hstored => hstored.1)
        refine ⟨fun field hfield hfieldBelow => ?_, (hstore.choose_spec).2.2⟩
        by_cases hvalue : valueAt (some input) field = none
        · exact .inl hvalue
        · refine .inr fun path' hpath' hbelow' => htables path' ?_ hbelow'
          rcases List.prefix_or_prefix_of_prefix hfieldBelow.1 hbelow.1 with hp | hp
          · obtain ⟨start, ⟨rest', rfl⟩, w, hw⟩ := hshown_of field hfield hvalue
            obtain ⟨rest'', rfl⟩ := hp
            by_cases hrest' : rest' ++ rest'' = []
            · rw [List.append_assoc, hrest', List.append_nil]
              rw [(List.append_eq_nil_iff.mp hrest').1, List.append_nil] at hpath'
              exact hpath'
            · rw [List.append_assoc, (below_value hrest' hw).1] at hshown
              cases hshown
          · exact hp.trans hpath'
      · rintro ⟨hthrough, hP⟩
        have htables := (hthrough before hmem hbelow).resolve_left (by rw [hv]; nofun)
        obtain ⟨w, hw, htable⟩ := htables before (List.prefix_refl _) hbelow
        rw [hv] at hw
        cases hw
        refine ⟨htable, ?_⟩
        exact ((storeBelow_returns rest hbefore hread ⟨v, hv, htable⟩).mpr htables).mono
          fun _ hstored => ⟨hstored, hP⟩

/-- **Reading a field of the projection.** -/
theorem Projects.read {fields : List (List Text)} {entries : Projections}
    (h : Projects input fields entries) {path : List Text} (hread : Readable (some input) path) :
    Ends (getProjection entries path) := by
  rcases open_or_through path entries with hopen | ⟨start, w, rest, rfl, hrest, hshown⟩
  · exact getProjection_of_open path hopen
  · have hstart : start ≠ [] := by
      rintro rfl
      cases hshown
    rw [getProjection_through hrest hshown, ← (h.agrees start w hshown).2]
    exact (getField_returns rest).mpr ⟨(readable_append hstart hread).2, trivial⟩

end

/-! ## Writing to the errors -/

/-- The parts before the last one lead through tables of errors. -/
def Clear : Errors → List Text → Prop
  | _, [] | _, [_] => True
  | errors, hd :: tl =>
    match errors.get (.name hd) with
    | none => True
    | some (.table subtbl) => Clear subtbl tl
    | some (.text _) => False

@[simp] theorem get_set (errors : Errors) (key key' : Key) (err : Err) :
    (errors.set key err).get key' = if key' = key then some err else errors.get key' :=
  OrderedTable.lookup_set errors key key' (some err)

theorem clear_nil (path : List Text) : Clear [] path := by
  rcases path with _ | ⟨hd, _ | ⟨next, rest⟩⟩ <;> trivial

theorem clear_cons {errors : Errors} {hd next : Text} {rest : List Text} :
    Clear errors (hd :: next :: rest) ↔ ∀ err, errors.get (.name hd) = some err →
      ∃ subtbl, err = .table subtbl ∧ Clear subtbl (next :: rest) := by
  show (match errors.get (.name hd) with
    | none => True
    | some (.table subtbl) => Clear subtbl (next :: rest)
    | some (.text _) => False) ↔ _
  rcases errors.get (.name hd) with _ | ⟨t | subtbl⟩
  · simp
  · simp
  · simp

theorem clear_set {errors : Errors} {key : Key} {err : Err} {hd next : Text}
    {rest : List Text} : Clear (errors.set key err) (hd :: next :: rest) ↔
      if .name hd = key then ∃ subtbl, err = .table subtbl ∧ Clear subtbl (next :: rest)
      else Clear errors (hd :: next :: rest) := by
  rw [clear_cons]
  simp only [get_set]
  split
  · simp
  · rw [clear_cons]

/-- The table that the errors below a name are set in. -/
def Errors.subtable (errors : Errors) (hd : Text) : Errors :=
  match errors.get (.name hd) with
  | some (.table subtbl) => subtbl
  | _ => []

theorem setField_cons {errors : Errors} {hd next : Text} {rest : List Text} (err : Err)
    {P : Errors → Prop} : Totally (setField errors (hd :: next :: rest) err) P ↔
      Clear errors [hd, next] ∧ Totally (setField (errors.subtable hd) (next :: rest) err)
        fun subtbl => P (errors.set (.name hd) (.table subtbl)) := by
  unfold Clear Errors.subtable
  rw [setField]
  · rcases errors.get (.name hd) with _ | ⟨t | subtbl⟩
    · simp
    · simp
    · simp [Clear]
  · exact List.cons_ne_nil next rest

theorem clear_subtable {errors : Errors} {hd next : Text} {rest : List Text} :
    Clear errors (hd :: next :: rest) ↔
      Clear errors [hd, next] ∧ Clear (errors.subtable hd) (next :: rest) := by
  rw [Clear, Clear]
  · unfold Errors.subtable
    rcases errors.get (.name hd) with _ | ⟨t | subtbl⟩
    · simp [clear_nil]
    · simp
    · simp [Clear]
  · exact List.cons_ne_nil _ _
  · exact List.cons_ne_nil _ _

theorem setField_returns (path : List Text) {errors : Errors} (err : Err) :
    Ends (setField errors path err) ↔ Clear errors path := by
  induction path generalizing errors with
  | nil => exact iff_of_true (.done trivial) trivial
  | cons hd tl ih =>
    cases tl with
    | nil => exact iff_of_true (.done trivial) trivial
    | cons next rest =>
      exact (setField_cons err).trans ((and_congr_right fun _ => ih).trans clear_subtable.symm)

theorem clear_of_setField (path : List Text) (hpath : path ≠ []) {errors : Errors} (t : Text)
    (h : Clear errors path) : Totally (setField errors path (.text t)) fun errors' =>
      ∀ path', Clear errors' path' ↔ Clear errors path' ∧ ¬ Below path path' := by
  have hshort : ∀ {errors errors' : Errors} {hd : Text} {tl path' : List Text},
      path'.length ≤ 1 →
      (Clear errors' path' ↔ Clear errors path' ∧ ¬ Below (hd :: tl) path') := by
    intro errors errors' hd tl path' hpath'
    rcases path' with _ | ⟨hd', _ | ⟨next, rest⟩⟩
    · exact iff_of_true trivial ⟨trivial, fun hbelow => by simpa using hbelow.1⟩
    · refine iff_of_true trivial ⟨trivial, fun hbelow => ?_⟩
      exact hbelow.2 (hbelow.1.eq_of_length_le (by simp))
    · simp at hpath'
  induction path generalizing errors with
  | nil => exact absurd rfl hpath
  | cons hd tl ih =>
    cases tl with
    | nil =>
      refine .done fun path' => ?_
      rcases path' with _ | ⟨hd', _ | ⟨next, rest⟩⟩
      · exact hshort (by simp)
      · exact hshort (by simp)
      · rw [clear_set, below_cons]
        by_cases heq : hd = hd'
        · simp [heq, Below]
        · simp [heq, Ne.symm heq]
    | cons next rest =>
      obtain ⟨hhead, htail⟩ := clear_subtable.mp h
      refine (setField_cons _).mpr ⟨hhead, (ih (List.cons_ne_nil _ _) htail).mono ?_⟩
      intro subtbl hsub path'
      rcases path' with _ | ⟨hd', _ | ⟨next', rest'⟩⟩
      · exact hshort (by simp)
      · exact hshort (by simp)
      · rw [clear_set, below_cons]
        by_cases heq : hd = hd'
        · subst heq
          have hhead' : Clear errors [hd, next'] := hhead
          rw [clear_subtable]
          simp [hsub, hhead']
        · simp [heq, Ne.symm heq]

end KongGateway.Kong.Db.SchemaValidation

import KongGateway.Lib.MapM
import KongGateway.Lib.Memo
import KongGateway.Kong.Db.Schema.Validation

/-!
# Merge — a patch over a stored entity

`merge_values` puts a partial entity over a stored one. Fields of records
are merged one by one at any depth, everything else is replaced as a whole.
The schema is the one of the stored entity. What is raised is an error of
`pairs` on a value that is no table.
-/

namespace KongGateway.Kong.Db.Patch

open Bytes
open SchemaValidation (Text Key)

/-! ## Values -/

inductive Scalar where
  | bool (b : Bool)
  | num (n : ℚ)
  | str (s : Text)
  deriving DecidableEq

inductive Value where
  | null
  | scalar (s : Scalar)
  | table (entries : List (Key × Value))

abbrev Table := List (Key × Value)

/-- `t[k]` -/
def getKey (t : Table) (k : Key) : Option Value := t.lookup k

/-- `t[k] = v` -/
def setKey (t : Table) (k : Key) : Option Value → Table
  | none => t.filter fun entry => entry.1 ≠ k
  | some v => Lru.touch t k v

/-- `for k, v in pairs(t) do output[k] = v end` -/
def copyTo (t output : Table) : Table :=
  t.foldr (fun entry output => setKey output entry.1 (some entry.2)) output

/-- The value at a path. -/
def Value.at : Value → List Key → Option Value
  | v, [] => some v
  | .table t, k :: path =>
    match getKey t k with
    | none => none
    | some v => v.at path
  | _, _ :: _ => none

/-- What is told apart of a value without looking into tables. -/
inductive Kind where
  | null
  | scalar (s : Scalar)
  | table
  deriving DecidableEq

def Value.kind : Value → Kind
  | .null => .null
  | .scalar s => .scalar s
  | .table _ => .table

/-- Two values that no path tells apart. -/
def Value.Same (v w : Value) : Prop :=
  ∀ path, (v.at path).map Value.kind = (w.at path).map Value.kind

/-! ## Schemas -/

structure FieldAttrs where
  abstract : Bool := false
  immutable : Bool := false
  deriving DecidableEq

mutual

/-- The definition of a field; `other` is of any type but a record. -/
inductive Field where
  | record (attrs : FieldAttrs) (fields : Fields)
  | other (attrs : FieldAttrs)

inductive Fields where
  | nil
  | cons (key : Text) (field : Field) (rest : Fields)

end

def Field.attrs : Field → FieldAttrs
  | .record attrs _ => attrs
  | .other attrs => attrs

/-- `fields[key]`; a later definition replaces an earlier one. -/
def Fields.find (key : Text) : Fields → Option Field
  | .nil => none
  | .cons name field rest => (rest.find key).or (if name = key then some field else none)

/-- The fields with those that a subschema defines. -/
def Fields.specialize (subschema : Option Fields) : Fields → Fields
  | .nil => .nil
  | .cons key field rest =>
    .cons key ((subschema.bind (Fields.find key)).getD field) (rest.specialize subschema)

/-- The field under a key of a table. -/
def Fields.findKey (fields : Fields) : Key → Option Field
  | .name key => fields.find key
  | .index _ => none

/-- A schema. The key of its subschemas is a string or a set, which no
subschema changes. -/
structure Schema where
  fields : Fields
  subschemaKey : Option Text := none
  subschemas : List (Text × Fields) := []
  key_plain : ∀ key, subschemaKey = some key → ∃ attrs, fields.find key = some (.other attrs)
  key_kept : ∀ key, subschemaKey = some key → ∀ subschema ∈ subschemas, ∀ field,
    subschema.2.find key = some field → ∃ attrs, field = .other attrs

/-- The values at `1`, `2` and so on of a table. -/
def sequence (t : Table) : Nat → Nat → List Value
  | _, 0 => []
  | i, n + 1 =>
    match getKey t (.index i) with
    | none => []
    | some v => v :: sequence t (i + 1) n

/-- `subschemas[key]`, where the key is not always a string. -/
def Schema.subschemaNamed (schema : Schema) : Value → Option Fields
  | .scalar (.str s) => schema.subschemas.lookup s
  | _ => none

/-- `get_subschema` -/
def Schema.subschema (schema : Schema) (input : Table) : Option Fields :=
  match schema.subschemaKey with
  | none => none
  | some key =>
    match getKey input (.name key) with
    | some (.table t) => (sequence t 1 t.length).findSome? schema.subschemaNamed
    | some v => schema.subschemaNamed v
    | none => none

/-- The fields that `each_field` yields. -/
def Schema.eachField (schema : Schema) (values : Table) : Fields :=
  schema.fields.specialize (schema.subschema values)

/-! ## Merging -/

abbrev Lua := Except String

/-- `(bottom ~= nil and bottom ~= null) and bottom or {}`, for `pairs`. -/
def orEmpty : Option Value → Lua Table
  | none | some .null | some (.scalar (.bool false)) => .ok []
  | some (.table t) => .ok t
  | some (.scalar _) => .error "bad argument #1 to 'pairs' (table expected)"

mutual

/-- The value of a field that the top has. -/
def Field.merge : Field → Value → Option Value → Lua Value
  | .record attrs fields, .table top, bottom =>
    if attrs.abstract then .ok (.table top)
    else do
      let bottom ← orEmpty bottom
      let output ← fields.merge top bottom (copyTo top (copyTo bottom []))
      .ok (.table output)
  | _, top, _ => .ok top

/-- The loop over the fields. -/
def Fields.merge : Fields → Table → Table → Table → Lua Table
  | .nil, _, _, output => .ok output
  | .cons key field rest, top, bottom, output =>
    match getKey top (.name key) with
    | none => rest.merge top bottom (setKey output (.name key) (getKey bottom (.name key)))
    | some v => do
      let merged ← field.merge v (getKey bottom (.name key))
      rest.merge top bottom (setKey output (.name key) (some merged))

end

/-- `merge_values` -/
def Schema.mergeValues (schema : Schema) (top : Table) (bottom : Option Value) : Lua Table := do
  let bottom ← orEmpty bottom
  (schema.eachField bottom).merge top bottom (copyTo top (copyTo bottom []))

/-! ## What a patch says about a path -/

/-- The fields and the table of a value that is merged field by field. -/
def intoRecord : Option Field → Value → Option (Fields × Table)
  | some (.record attrs fields), .table t => if attrs.abstract then none else some (fields, t)
  | _, _ => none

/-- The patch sets the path or something above it as a whole, goes through
the path from record to record, or says nothing about it. -/
inductive Given where
  | whole
  | merged
  | silent
  deriving DecidableEq

def given : List Key → Fields → Table → Given
  | [], _, _ => .merged
  | k :: path, fields, top =>
    match getKey top k with
    | none => .silent
    | some v =>
      match intoRecord (fields.findKey k) v with
      | some into => given path into.1 into.2
      | none => .whole

/-! ## Tables -/

@[simp] theorem getKey_setKey (t : Table) (k k' : Key) (v : Option Value) :
    getKey (setKey t k v) k' = if k' = k then v else getKey t k' := by
  unfold getKey
  cases v with
  | some v => exact Lru.lookup_touch t k k' v
  | none =>
    by_cases hk : k' = k
    · rw [if_pos hk, setKey, List.lookup_eq_none_iff]
      intro entry hentry
      have hne := of_decide_eq_true (List.mem_filter.mp hentry).2
      rw [hk, bne_iff_ne]
      exact Ne.symm hne
    · rw [if_neg hk]
      exact Lru.lookup_filter_ne t hk

theorem getKey_cons (entry : Key × Value) (t : Table) (k : Key) :
    getKey (entry :: t) k = if k = entry.1 then some entry.2 else getKey t k := by
  unfold getKey
  rw [List.lookup_cons]
  by_cases hk : k = entry.1
  · simp [hk]
  · simp [hk, beq_false_of_ne hk]

@[simp] theorem getKey_copyTo (t output : Table) (k : Key) :
    getKey (copyTo t output) k = (getKey t k).or (getKey output k) := by
  induction t with
  | nil => rfl
  | cons entry t ih =>
    show getKey (setKey (copyTo t output) entry.1 (some entry.2)) k = _
    rw [getKey_setKey, ih, getKey_cons]
    by_cases hk : k = entry.1
    · simp [hk]
    · simp [hk]

@[simp] theorem at_nil (v : Value) : v.at [] = some v := by
  cases v with
  | _ => rfl

theorem at_cons (t : Table) (k : Key) (path : List Key) :
    (Value.table t).at (k :: path) = (getKey t k).bind fun v => v.at path := by
  rw [Value.at]
  cases getKey t k with
  | none => rfl
  | some v => rfl

/-! ## One field -/

theorem Field.merge_whole {field : Field} {v : Value} (h : intoRecord (some field) v = none)
    (bottom : Option Value) : field.merge v bottom = .ok v := by
  cases field with
  | other attrs => rfl
  | record attrs fields =>
    cases v with
    | null => rfl
    | scalar s => rfl
    | table t =>
      have habstract : attrs.abstract = true := by
        by_contra hnot
        rw [intoRecord, if_neg hnot] at h
        cases h
      rw [Field.merge, if_pos habstract]

theorem Field.merge_into {field : Field} {v : Value} {fields : Fields} {t : Table}
    (h : intoRecord (some field) v = some (fields, t)) (bottom : Option Value) :
    field.merge v bottom = (do
      let bottom ← orEmpty bottom
      let output ← fields.merge t bottom (copyTo t (copyTo bottom []))
      .ok (.table output)) := by
  cases field with
  | other attrs => cases h
  | record attrs fields' =>
    cases v with
    | null => cases h
    | scalar s => cases h
    | table t' =>
      rw [intoRecord] at h
      by_cases habstract : attrs.abstract = true
      · rw [if_pos habstract] at h
        cases h
      · rw [if_neg habstract] at h
        cases h
        rw [Field.merge, if_neg habstract]

/-! ## The loop over the fields -/

theorem Fields.inOrder {motive : Fields → Prop} (nil : motive .nil)
    (cons : ∀ key field rest, motive rest → motive (.cons key field rest)) (fields : Fields) :
    motive fields :=
  @Fields.rec (fun _ => True) motive (fun _ _ _ => trivial) (fun _ => trivial) nil
    (fun key field rest _ ih => cons key field rest ih) fields

theorem Fields.findKey_cons (k : Key) (key : Text) (field : Field) (rest : Fields) :
    (Fields.cons key field rest).findKey k
      = (rest.findKey k).or (if k = .name key then some field else none) := by
  cases k with
  | index i => rfl
  | name name =>
    show (rest.find name).or (if key = name then some field else none) = _
    simp [findKey, eq_comm]

section

variable {top bottom : Table}

/-- What the loop puts under a key, after what it has put there before. -/
theorem Fields.merge_step {key : Text} {field : Field} {rest : Fields} {output result : Table}
    (h : (Fields.cons key field rest).merge top bottom output = .ok result) :
    ∃ value, rest.merge top bottom (setKey output (.name key) value) = .ok result
      ∧ (getKey top (.name key) = none → value = getKey bottom (.name key))
      ∧ ∀ v, getKey top (.name key) = some v →
        ∃ merged, field.merge v (getKey bottom (.name key)) = .ok merged ∧ value = some merged := by
  rw [Fields.merge] at h
  cases htop : getKey top (.name key) with
  | none =>
    rw [htop] at h
    exact ⟨_, h, fun _ => rfl, nofun⟩
  | some v =>
    rw [htop] at h
    obtain ⟨merged, hmerged, h⟩ := MapM.bind_ok h
    refine ⟨some merged, h, nofun, fun v' hv' => ?_⟩
    cases hv'
    exact ⟨merged, hmerged, rfl⟩

theorem Fields.merge_of_not_found {fields : Fields} {k : Key} (hfind : fields.findKey k = none)
    {output result : Table} (h : fields.merge top bottom output = .ok result) :
    getKey result k = getKey output k := by
  induction fields using Fields.inOrder generalizing output with
  | nil =>
    cases h
    rfl
  | cons key field rest ih =>
    rw [findKey_cons, Option.or_eq_none_iff] at hfind
    obtain ⟨value, hrest, -, -⟩ := Fields.merge_step h
    have hne : k ≠ .name key := by
      intro heq
      rw [if_pos heq] at hfind
      cases hfind.2
    rw [ih hfind.1 hrest, getKey_setKey, if_neg hne]

theorem Fields.merge_of_absent {fields : Fields} {k : Key} {found : Field}
    (hfind : fields.findKey k = some found) (htop : getKey top k = none) {output result : Table}
    (h : fields.merge top bottom output = .ok result) : getKey result k = getKey bottom k := by
  induction fields using Fields.inOrder generalizing output with
  | nil =>
    cases k with
    | name name => cases hfind
    | index i => cases hfind
  | cons key field rest ih =>
    rw [findKey_cons] at hfind
    obtain ⟨value, hrest, habsent, -⟩ := Fields.merge_step h
    cases hfound : rest.findKey k with
    | some other =>
      rw [hfound] at hfind
      cases hfind
      exact ih hfound hrest
    | none =>
      rw [hfound, Option.none_or] at hfind
      have hk : k = .name key := by
        by_contra hne
        rw [if_neg hne] at hfind
        cases hfind
      subst hk
      rw [Fields.merge_of_not_found hfound hrest, getKey_setKey, if_pos rfl, habsent htop]

theorem Fields.merge_of_given {fields : Fields} {k : Key} {found : Field} {v : Value}
    (hfind : fields.findKey k = some found) (htop : getKey top k = some v) {output result : Table}
    (h : fields.merge top bottom output = .ok result) :
    ∃ merged, found.merge v (getKey bottom k) = .ok merged ∧ getKey result k = some merged := by
  induction fields using Fields.inOrder generalizing output with
  | nil =>
    cases k with
    | name name => cases hfind
    | index i => cases hfind
  | cons key field rest ih =>
    rw [findKey_cons] at hfind
    obtain ⟨value, hrest, -, hgiven⟩ := Fields.merge_step h
    cases hfound : rest.findKey k with
    | some other =>
      rw [hfound] at hfind
      cases hfind
      exact ih hfound hrest
    | none =>
      rw [hfound, Option.none_or] at hfind
      have hk : k = .name key := by
        by_contra hne
        rw [if_neg hne] at hfind
        cases hfind
      subst hk
      rw [if_pos rfl] at hfind
      cases hfind
      obtain ⟨merged, hmerged, rfl⟩ := hgiven v htop
      refine ⟨merged, hmerged, ?_⟩
      rw [Fields.merge_of_not_found hfound hrest, getKey_setKey, if_pos rfl]

end

/-! ## Paths -/

/-- The table that two tables are merged to. -/
def Fields.mergeTables (fields : Fields) (top bottom : Table) : Lua Table :=
  fields.merge top bottom (copyTo top (copyTo bottom []))

theorem getKey_overlay (top bottom : Table) (k : Key) :
    getKey (copyTo top (copyTo bottom [])) k = (getKey top k).or (getKey bottom k) := by
  rw [getKey_copyTo, getKey_copyTo]
  cases getKey bottom k with
  | none => rfl
  | some v => rfl

section

variable {fields : Fields} {top bottom result : Table}

theorem mergeTables_absent (h : fields.mergeTables top bottom = .ok result) {k : Key}
    (htop : getKey top k = none) : getKey result k = getKey bottom k := by
  cases hfind : fields.findKey k with
  | none => rw [Fields.merge_of_not_found hfind h, getKey_overlay, htop, Option.none_or]
  | some found => exact Fields.merge_of_absent hfind htop h

theorem mergeTables_whole (h : fields.mergeTables top bottom = .ok result) {k : Key} {v : Value}
    (htop : getKey top k = some v) (hinto : intoRecord (fields.findKey k) v = none) :
    getKey result k = some v := by
  cases hfind : fields.findKey k with
  | none => rw [Fields.merge_of_not_found hfind h, getKey_overlay, htop, Option.some_or]
  | some found =>
    obtain ⟨merged, hmerged, hresult⟩ := Fields.merge_of_given hfind htop h
    rw [hfind] at hinto
    rw [Field.merge_whole hinto] at hmerged
    cases hmerged
    exact hresult

theorem mergeTables_into (h : fields.mergeTables top bottom = .ok result) {k : Key} {v : Value}
    (htop : getKey top k = some v) {subfields : Fields} {t : Table}
    (hinto : intoRecord (fields.findKey k) v = some (subfields, t)) :
    ∃ b output, orEmpty (getKey bottom k) = .ok b ∧ subfields.mergeTables t b = .ok output
      ∧ getKey result k = some (.table output) := by
  cases hfind : fields.findKey k with
  | none =>
    rw [hfind] at hinto
    cases hinto
  | some found =>
    obtain ⟨merged, hmerged, hresult⟩ := Fields.merge_of_given hfind htop h
    rw [hfind] at hinto
    rw [Field.merge_into hinto] at hmerged
    obtain ⟨b, hb, hmerged⟩ := MapM.bind_ok hmerged
    obtain ⟨output, houtput, hmerged⟩ := MapM.bind_ok hmerged
    cases hmerged
    exact ⟨b, output, hb, houtput, hresult⟩

end

/-- The result at a path, by what the patch says about the path. -/
structure MergedAt (fields : Fields) (top bottom result : Table) (path : List Key) : Prop where
  whole : given path fields top = .whole → (Value.table result).at path = (Value.table top).at path
  silent : given path fields top = .silent →
    (Value.table result).at path = (Value.table bottom).at path
  merged : given path fields top = .merged → ∃ t, (Value.table result).at path = some (.table t)

/-- A field that is not there, null or false has nothing at any path below. -/
theorem at_orEmpty {value : Option Value} {t : Table} (h : orEmpty value = .ok t) {path : List Key}
    (hpath : path ≠ []) : (Value.table t).at path = value.bind fun v => v.at path := by
  cases path with
  | nil => exact absurd rfl hpath
  | cons k path =>
    cases value with
    | none =>
      cases h
      rfl
    | some v =>
      cases v with
      | null =>
        cases h
        rfl
      | scalar s =>
        rcases s with (_ | _) | _ | _
        · cases h
          rfl
        · cases h
        · cases h
        · cases h
      | table t' =>
        cases h
        rfl

theorem given_cons_none {k : Key} {path : List Key} {fields : Fields} {top : Table}
    (htop : getKey top k = none) : given (k :: path) fields top = .silent := by
  rw [given, htop]

theorem given_cons_whole {k : Key} {path : List Key} {fields : Fields} {top : Table} {v : Value}
    (htop : getKey top k = some v) (hinto : intoRecord (fields.findKey k) v = none) :
    given (k :: path) fields top = .whole := by
  rw [given, htop]
  simp only [hinto]

theorem given_cons_into {k : Key} {path : List Key} {fields subfields : Fields} {top t : Table}
    {v : Value} (htop : getKey top k = some v)
    (hinto : intoRecord (fields.findKey k) v = some (subfields, t)) :
    given (k :: path) fields top = given path subfields t := by
  rw [given, htop]
  simp only [hinto]

theorem intoRecord_table {field : Option Field} {v : Value} {fields : Fields} {t : Table}
    (h : intoRecord field v = some (fields, t)) : v = .table t := by
  unfold intoRecord at h
  split at h
  · split at h
    · cases h
    · cases h
      rfl
  · cases h

theorem merged_at (path : List Key) {fields : Fields} {top bottom result : Table}
    (h : fields.mergeTables top bottom = .ok result) : MergedAt fields top bottom result path := by
  induction path generalizing fields top bottom result with
  | nil =>
    constructor
    · intro hgiven
      cases hgiven
    · intro hgiven
      cases hgiven
    · intro _
      exact ⟨result, at_nil _⟩
  | cons k path ih =>
    cases htop : getKey top k with
    | none =>
      have hgiven : given (k :: path) fields top = .silent := given_cons_none htop
      constructor
      · intro hwhole
        rw [hgiven] at hwhole
        cases hwhole
      · intro _
        rw [at_cons, at_cons, mergeTables_absent h htop]
      · intro hmerged
        rw [hgiven] at hmerged
        cases hmerged
    | some v =>
      cases hinto : intoRecord (fields.findKey k) v with
      | none =>
        have hgiven : given (k :: path) fields top = .whole := given_cons_whole htop hinto
        constructor
        · intro _
          rw [at_cons, at_cons, mergeTables_whole h htop hinto, htop]
        · intro hsilent
          rw [hgiven] at hsilent
          cases hsilent
        · intro hmerged
          rw [hgiven] at hmerged
          cases hmerged
      | some into =>
        obtain ⟨subfields, t⟩ := into
        obtain ⟨b, output, hb, houtput, hresult⟩ := mergeTables_into h htop hinto
        have hv := intoRecord_table hinto
        have hat := ih houtput
        have hgiven : given (k :: path) fields top = given path subfields t :=
          given_cons_into htop hinto
        constructor
        · intro hwhole
          rw [at_cons, at_cons, hresult, htop, hv]
          exact hat.whole (hgiven.symm.trans hwhole)
        · intro hsilent
          have hsilent' := hgiven.symm.trans hsilent
          have hpath : path ≠ [] := by
            rintro rfl
            cases hsilent'
          rw [at_cons, at_cons, hresult, ← at_orEmpty hb hpath]
          exact hat.silent hsilent'
        · intro hmerged
          rw [at_cons, hresult]
          exact hat.merged (hgiven.symm.trans hmerged)

/-! ## Merging does not raise -/

mutual

/-- Where the patch has a record, the bottom has a table or nothing. -/
def Field.Fits : Field → Value → Option Value → Prop
  | .record attrs fields, .table top, bottom =>
    attrs.abstract = true ∨ ∃ t, orEmpty bottom = .ok t ∧ fields.Fits top t
  | _, _, _ => True

def Fields.Fits : Fields → Table → Table → Prop
  | .nil, _, _ => True
  | .cons key field rest, top, bottom =>
    (∀ v, getKey top (.name key) = some v → field.Fits v (getKey bottom (.name key)))
      ∧ rest.Fits top bottom

/-- The records of an entity are tables, null or missing. -/
def Field.Shaped : Field → Option Value → Prop
  | .record attrs fields, value =>
    attrs.abstract = true ∨ ∃ t, orEmpty value = .ok t ∧ fields.Shaped t
  | .other _, _ => True

def Fields.Shaped : Fields → Table → Prop
  | .nil, _ => True
  | .cons key field rest, t => field.Shaped (getKey t (.name key)) ∧ rest.Shaped t

end

theorem Fields.byRecords {field : Field → Prop} {motive : Fields → Prop}
    (record : ∀ attrs fields, motive fields → field (.record attrs fields))
    (other : ∀ attrs, field (.other attrs)) (nil : motive .nil)
    (cons : ∀ key head rest, field head → motive rest → motive (.cons key head rest))
    (fields : Fields) : motive fields :=
  @Fields.rec field motive record other nil cons fields

theorem Fields.fits_of_shaped (fields : Fields) :
    ∀ top bottom, fields.Shaped bottom → fields.Fits top bottom := by
  refine @Fields.byRecords (fun field => ∀ v bottom, field.Shaped bottom → field.Fits v bottom)
    (fun fields => ∀ top bottom, fields.Shaped bottom → fields.Fits top bottom) ?_ ?_ ?_ ?_ fields
  · intro attrs fields ih v bottom h
    cases v with
    | null => trivial
    | scalar s => trivial
    | table top =>
      rcases h with habstract | ⟨t, ht, hshaped⟩
      · exact .inl habstract
      · exact .inr ⟨t, ht, ih top t hshaped⟩
  · intro attrs v bottom _
    trivial
  · intro top bottom _
    trivial
  · intro key head rest ihhead ihrest top bottom h
    exact ⟨fun v _ => ihhead v _ h.1, ihrest top bottom h.2⟩

theorem Fields.merge_of_fits (fields : Fields) :
    ∀ top bottom output, fields.Fits top bottom → ∃ result,
      fields.merge top bottom output = .ok result := by
  refine @Fields.byRecords
    (fun field => ∀ v bottom, field.Fits v bottom → ∃ merged, field.merge v bottom = .ok merged)
    (fun fields => ∀ top bottom output, fields.Fits top bottom → ∃ result,
      fields.merge top bottom output = .ok result) ?_ ?_ ?_ ?_ fields
  · intro attrs fields ih v bottom h
    cases hinto : intoRecord (some (.record attrs fields)) v with
    | none => exact ⟨v, Field.merge_whole hinto bottom⟩
    | some into =>
      obtain ⟨subfields, top⟩ := into
      cases intoRecord_table hinto
      rw [intoRecord] at hinto
      rcases h with habstract | ⟨t, ht, hfits⟩
      · rw [if_pos habstract] at hinto
        cases hinto
      · obtain ⟨output, houtput⟩ := ih top t (copyTo top (copyTo t [])) hfits
        refine ⟨.table output, ?_⟩
        have hnot : ¬ attrs.abstract = true := by
          intro habstract
          rw [if_pos habstract] at hinto
          cases hinto
        rw [Field.merge, if_neg hnot, ht]
        show (do
          let output ← fields.merge top t (copyTo top (copyTo t []))
          Except.ok (Value.table output)) = _
        rw [houtput]
        rfl
  · intro attrs v bottom _
    exact ⟨v, rfl⟩
  · intro top bottom output _
    exact ⟨output, rfl⟩
  · intro key head rest ihhead ihrest top bottom output h
    rw [Fields.merge]
    cases htop : getKey top (.name key) with
    | none => exact ihrest top bottom _ h.2
    | some v =>
      obtain ⟨merged, hmerged⟩ := ihhead v _ (h.1 v htop)
      obtain ⟨result, hresult⟩ := ihrest top bottom (setKey output (.name key) (some merged)) h.2
      refine ⟨result, ?_⟩
      show (do
        let merged ← head.merge v (getKey bottom (.name key))
        rest.merge top bottom (setKey output (.name key) (some merged))) = _
      rw [hmerged]
      exact hresult

/-- A table that has tables wherever another one has them. -/
def Covers (top bottom : Value) : Prop :=
  ∀ path t, top.at path = some (.table t) → ∃ t', bottom.at path = some (.table t')

theorem Fields.fits_of_covers (fields : Fields) :
    ∀ top bottom, Covers (.table top) (.table bottom) → fields.Fits top bottom := by
  refine @Fields.byRecords
    (fun field => ∀ v bottom, Covers v bottom → field.Fits v (some bottom))
    (fun fields => ∀ top bottom, Covers (.table top) (.table bottom) → fields.Fits top bottom)
    ?_ ?_ ?_ ?_ fields
  · intro attrs fields ih v bottom h
    cases v with
    | null => trivial
    | scalar s => trivial
    | table top =>
      obtain ⟨t, ht⟩ := h [] top rfl
      rw [at_nil] at ht
      cases ht
      exact .inr ⟨t, rfl, ih top t h⟩
  · intro attrs v bottom _
    trivial
  · intro top bottom _
    trivial
  · intro key head rest ihhead ihrest top bottom h
    refine ⟨fun v hv => ?_, ihrest top bottom h⟩
    have hbelow : ∀ path t, v.at path = some (.table t) →
        ∃ t', (Value.table bottom).at (.name key :: path) = some (.table t') := by
      intro path t ht
      refine h (.name key :: path) t ?_
      rw [at_cons, hv]
      exact ht
    cases hbottom : getKey bottom (.name key) with
    | some b =>
      refine ihhead v b fun path t ht => ?_
      obtain ⟨t', ht'⟩ := hbelow path t ht
      rw [at_cons, hbottom] at ht'
      exact ⟨t', ht'⟩
    | none =>
      cases v with
      | null => cases head <;> trivial
      | scalar s => cases head <;> trivial
      | table t =>
        obtain ⟨t', ht'⟩ := hbelow [] t rfl
        rw [at_cons, hbottom] at ht'
        cases ht'

theorem at_of_silent (path : List Key) {fields : Fields} {top : Table}
    (h : given path fields top = .silent) : (Value.table top).at path = none := by
  induction path generalizing fields top with
  | nil => cases h
  | cons k path ih =>
    rw [at_cons]
    cases htop : getKey top k with
    | none => rfl
    | some v =>
      cases hinto : intoRecord (fields.findKey k) v with
      | none =>
        rw [given_cons_whole htop hinto] at h
        cases h
      | some into =>
        obtain ⟨subfields, t⟩ := into
        rw [given_cons_into htop hinto] at h
        rw [intoRecord_table hinto]
        exact ih h

theorem covers_result {fields : Fields} {top bottom result : Table}
    (h : fields.mergeTables top bottom = .ok result) : Covers (.table top) (.table result) := by
  intro path t ht
  have hat := merged_at path h
  cases hgiven : given path fields top with
  | whole => exact ⟨t, (hat.whole hgiven).trans ht⟩
  | merged => exact hat.merged hgiven
  | silent =>
    rw [at_of_silent path hgiven] at ht
    cases ht

theorem mergeTables_twice {fields : Fields} {top bottom result : Table}
    (h : fields.mergeTables top bottom = .ok result) :
    ∃ again, fields.mergeTables top result = .ok again
      ∧ (Value.table again).Same (.table result) := by
  obtain ⟨again, hagain⟩ := fields.merge_of_fits top result (copyTo top (copyTo result []))
    (fields.fits_of_covers top result (covers_result h))
  refine ⟨again, hagain, fun path => ?_⟩
  have hat := merged_at path h
  have hat' := merged_at path (show fields.mergeTables top result = .ok again from hagain)
  cases hgiven : given path fields top with
  | whole => rw [hat.whole hgiven, hat'.whole hgiven]
  | silent => rw [hat'.silent hgiven]
  | merged =>
    obtain ⟨t, ht⟩ := hat.merged hgiven
    obtain ⟨t', ht'⟩ := hat'.merged hgiven
    rw [ht, ht']
    rfl

/-! ## A schema -/

/-- A stored entity, whose records are tables, null or missing. -/
structure StoredEntity (schema : Schema) where
  table : Table
  shaped : (schema.eachField table).Shaped table

/-- The patch leaves the subschema of the entity as it is. -/
def SameSubschema (schema : Schema) (p e : Table) : Prop :=
  ∀ key, schema.subschemaKey = some key → getKey p (.name key) ≠ none →
    schema.subschema p = schema.subschema e

theorem mergeValues_eq (schema : Schema) (top bottom : Table) :
    schema.mergeValues top (some (.table bottom))
      = (schema.eachField bottom).mergeTables top bottom := rfl

theorem find_specialize (key : Text) (subschema : Option Fields) (fields : Fields) :
    (fields.specialize subschema).find key
      = (fields.find key).map fun field => (subschema.bind (Fields.find key)).getD field := by
  induction fields using Fields.inOrder with
  | nil => rfl
  | cons name field rest ih =>
    show ((rest.specialize subschema).find key).or _ = _
    rw [ih, Fields.find]
    cases rest.find key with
    | some found => rfl
    | none =>
      by_cases hname : name = key
      · simp [hname]
      · simp [hname]

theorem subschema_congr {schema : Schema} {input input' : Table}
    (h : ∀ key, schema.subschemaKey = some key →
      getKey input (.name key) = getKey input' (.name key)) :
    schema.subschema input = schema.subschema input' := by
  unfold Schema.subschema
  cases hkey : schema.subschemaKey with
  | none => rfl
  | some key => simp only [h key hkey]

theorem subschema_mem {schema : Schema} {input : Table} {subschema : Fields}
    (h : schema.subschema input = some subschema) : ∃ name, (name, subschema) ∈ schema.subschemas := by
  have hnamed : ∀ v, schema.subschemaNamed v = some subschema →
      ∃ name, (name, subschema) ∈ schema.subschemas := by
    intro v hv
    unfold Schema.subschemaNamed at hv
    split at hv
    · rename_i s
      obtain ⟨before, after, heq, -⟩ := List.lookup_eq_some_iff.mp hv
      refine ⟨s, ?_⟩
      rw [heq]
      simp
    · cases hv
  unfold Schema.subschema at h
  split at h
  · cases h
  · split at h
    · obtain ⟨v, -, hv⟩ := List.exists_of_findSome?_eq_some h
      exact hnamed v hv
    · exact hnamed _ h
    · cases h

theorem intoRecord_subschemaKey (schema : Schema) {key : Text} (hkey : schema.subschemaKey = some key)
    (input : Table) (v : Value) :
    intoRecord ((schema.eachField input).findKey (.name key)) v = none := by
  obtain ⟨attrs, hattrs⟩ := schema.key_plain key hkey
  obtain ⟨attrs', hfound⟩ : ∃ attrs', (schema.eachField input).find key = some (.other attrs') := by
    unfold Schema.eachField
    rw [find_specialize, hattrs]
    cases hsub : schema.subschema input with
    | none => exact ⟨attrs, rfl⟩
    | some subschema =>
      obtain ⟨name, hmem⟩ := subschema_mem hsub
      cases hfind : subschema.find key with
      | none => exact ⟨attrs, by simp [hfind]⟩
      | some field =>
        obtain ⟨attrs', rfl⟩ := schema.key_kept key hkey _ hmem field hfind
        exact ⟨attrs', by simp [hfind]⟩
  show intoRecord ((schema.eachField input).find key) v = none
  rw [hfound]
  rfl

theorem subschema_mergeValues {schema : Schema} {p e m : Table}
    (h : schema.mergeValues p (some (.table e)) = .ok m) (hsame : SameSubschema schema p e) :
    schema.subschema m = schema.subschema e := by
  rw [mergeValues_eq] at h
  by_cases hgives : ∃ key, schema.subschemaKey = some key ∧ getKey p (.name key) ≠ none
  · obtain ⟨key, hkey, hgiven⟩ := hgives
    rw [← hsame key hkey hgiven]
    refine subschema_congr fun key' hkey' => ?_
    cases hkey.symm.trans hkey'
    obtain ⟨v, hv⟩ := Option.ne_none_iff_exists'.mp hgiven
    rw [hv]
    exact mergeTables_whole h hv (intoRecord_subschemaKey schema hkey e v)
  · refine subschema_congr fun key hkey => mergeTables_absent h ?_
    by_contra hgiven
    exact hgives ⟨key, hkey, hgiven⟩

end KongGateway.Kong.Db.Patch

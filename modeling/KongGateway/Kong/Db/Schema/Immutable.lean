import KongGateway.Kong.Db.Schema.Merge

/-!
# Immutable — fields that an update may not change

`check_update` compares the immutable fields of a patch with those of the
stored entity before it merges the two. A list is compared without regard
to the order of its values, and a field that the entity does not have may
be set. `deepcompare` and `compare_no_order` of Penlight are parameters.
-/

namespace KongGateway.Kong.Db.Patch

open Bytes
open SchemaValidation (Text Key)

/-! ## Lists -/

/-- The position of a value in a list. -/
def position : Key → Option Nat
  | .index (i + 1) => some (i + 1)
  | _ => none

/-- `is_array`: the keys are `1` to their number. -/
def isArray : Value → Bool
  | .table t =>
    let keys := (t.map Prod.fst).dedup
    keys.all (fun k => (position k).isSome)
      && keys.length = (keys.filterMap position).foldl max 0
  | _ => false

def Value.items : Value → List Value
  | .table t => sequence t 1 t.length
  | _ => []

/-- A list of values none of which is a table. -/
def PlainArray (v : Value) : Prop := isArray v = true ∧ ∀ item ∈ v.items, item.kind ≠ .table

/-! ## The check -/

def Fields.toList : Fields → List (Text × Field)
  | .nil => []
  | .cons key field rest => (key, field) :: rest.toList

section

variable (deepcompare : Option Value → Value → Bool) (compareNoOrder : Value → Value → Lua Bool)

/-- `compare(input[key], entity[key])` -/
def compareValues (value : Option Value) (stored : Value) : Lua Bool :=
  match value with
  | none => .ok (deepcompare none stored)
  | some value =>
    if isArray value then compareNoOrder value stored
    else .ok (deepcompare (some value) stored)

/-- Whether an immutable field keeps its value. -/
def keepsValue (input entity : Table) (key : Text) (field : Field) : Lua Bool :=
  if field.attrs.immutable then
    match getKey entity (.name key) with
    | none => .ok true
    | some stored => compareValues deepcompare compareNoOrder (getKey input (.name key)) stored
  else .ok true

/-- `validate_immutable_fields`: the fields with an error. -/
def immutableErrors (input entity : Table) : List (Text × Field) → Lua (List Text)
  | [] => .ok []
  | (key, field) :: rest => do
    let kept ← keepsValue deepcompare compareNoOrder input entity key field
    let errors ← immutableErrors input entity rest
    .ok (if kept then errors else key :: errors)

/-- How `check_update` ends, as far as the merged entity. -/
inductive Update where
  | immutable (errors : List Text)
  | notFound
  | merged (entity : Table)

/-- `check_update` of an entity that `process_auto_fields` has returned, with
the entity read before the write. -/
def checkUpdate (schema : Schema) (entity : Table) (rbwEntity : Option Table) : Lua Update :=
  match rbwEntity with
  | none => .ok .notFound
  | some rbwEntity => do
    let fields := (schema.eachField entity).toList
    -- `check_immutable_fields` of `process_auto_fields`
    let errors ←
      if fields.any fun field => field.2.attrs.immutable then
        immutableErrors deepcompare compareNoOrder entity rbwEntity fields
      else .ok []
    if errors = [] then do
      let merged ← schema.mergeValues entity (some (.table rbwEntity))
      .ok (.merged merged)
    else .ok (.immutable errors)

end

/-- A field that the schema of the patch declares immutable. -/
def Schema.Immutable (schema : Schema) (p : Table) (key : Text) : Prop :=
  ∃ field, (key, field) ∈ (schema.eachField p).toList ∧ field.attrs.immutable = true

/-- The values differ, lists by more than their order. -/
def Differs (v w : Value) : Prop :=
  if isArray v then ¬ v.items.Perm w.items else ¬ v.Same w

/-- What is documented of the comparisons, for the immutable fields that the
patch gives and the entity has. -/
structure Compares (deepcompare : Option Value → Value → Bool)
    (compareNoOrder : Value → Value → Lua Bool) (schema : Schema) (p e : Table) : Prop where
  deep : ∀ key v w, schema.Immutable p key → getKey p (.name key) = some v →
    getKey e (.name key) = some w → isArray v = false →
    (deepcompare (some v) w = true ↔ v.Same w)
  lists : ∀ key v w, schema.Immutable p key → getKey p (.name key) = some v →
    getKey e (.name key) = some w → PlainArray v → PlainArray w →
    ∃ same, compareNoOrder v w = .ok same ∧ (same = true ↔ v.items.Perm w.items)

/-- A list that the patch gives for an immutable field is one of plain
values, and so is what is stored. -/
def PlainLists (schema : Schema) (p e : Table) : Prop :=
  ∀ key v w, schema.Immutable p key → getKey p (.name key) = some v →
    getKey e (.name key) = some w → isArray v = true → PlainArray v ∧ PlainArray w

/-! ## The fields with an error -/

section

variable {deepcompare : Option Value → Value → Bool} {compareNoOrder : Value → Value → Lua Bool}
  {schema : Schema} {p e : Table}

theorem compareValues_ok (hcompares : Compares deepcompare compareNoOrder schema p e)
    (hlists : PlainLists schema p e) {key : Text} {v w : Value} (himmutable : schema.Immutable p key)
    (hv : getKey p (.name key) = some v) (hw : getKey e (.name key) = some w) :
    ∃ same, compareValues deepcompare compareNoOrder (some v) w = .ok same
      ∧ (same = false ↔ Differs v w) := by
  unfold compareValues Differs
  by_cases harray : isArray v = true
  · obtain ⟨hplain, hplain'⟩ := hlists key v w himmutable hv hw harray
    obtain ⟨same, hsame, hiff⟩ := hcompares.lists key v w himmutable hv hw hplain hplain'
    refine ⟨same, ?_, ?_⟩
    · simp only [harray, if_true]
      exact hsame
    · rw [if_pos harray, ← hiff, Bool.not_eq_true]
  · refine ⟨deepcompare (some v) w, ?_, ?_⟩
    · simp only [if_neg harray]
    · have hdeep := hcompares.deep key v w himmutable hv hw (Bool.eq_false_iff.mpr harray)
      rw [if_neg harray, ← hdeep, Bool.not_eq_true]

theorem keepsValue_ok (hcompares : Compares deepcompare compareNoOrder schema p e)
    (hlists : PlainLists schema p e) {key : Text} {field : Field}
    (hmem : (key, field) ∈ (schema.eachField p).toList) :
    ∃ kept, keepsValue deepcompare compareNoOrder p e key field = .ok kept
      ∧ (kept = false → field.attrs.immutable = true)
      ∧ (field.attrs.immutable = true → getKey e (.name key) = none → kept = true)
      ∧ ∀ v w, field.attrs.immutable = true → getKey p (.name key) = some v →
        getKey e (.name key) = some w → (kept = false ↔ Differs v w) := by
  unfold keepsValue
  by_cases himmutable : field.attrs.immutable = true
  · rw [if_pos himmutable]
    cases hw : getKey e (.name key) with
    | none => exact ⟨true, rfl, fun _ => himmutable, fun _ _ => rfl, nofun⟩
    | some w =>
      cases hv : getKey p (.name key) with
      | none => exact ⟨_, rfl, fun _ => himmutable, nofun, nofun⟩
      | some v =>
        obtain ⟨same, hsame, hiff⟩ :=
          compareValues_ok hcompares hlists ⟨field, hmem, himmutable⟩ hv hw
        refine ⟨same, hsame, fun _ => himmutable, nofun, fun v' w' _ hv' hw' => ?_⟩
        cases hv'
        cases hw'
        exact hiff
  · rw [if_neg himmutable]
    exact ⟨true, rfl, nofun, fun h => absurd h himmutable, fun v w h => absurd h himmutable⟩

theorem immutableErrors_cons {key : Text} {field : Field} {rest : List (Text × Field)}
    {kept : Bool} {errors : List Text}
    (hkept : keepsValue deepcompare compareNoOrder p e key field = .ok kept)
    (herrors : immutableErrors deepcompare compareNoOrder p e rest = .ok errors) :
    immutableErrors deepcompare compareNoOrder p e ((key, field) :: rest)
      = .ok (if kept then errors else key :: errors) := by
  rw [immutableErrors, hkept, herrors]
  rfl

/-- The errors of the loop over some of the fields. -/
structure ErrorsOf (p e : Table) (fields : List (Text × Field)) (errors : List Text) : Prop where
  declared : ∀ key ∈ errors, ∃ field, (key, field) ∈ fields ∧ field.attrs.immutable = true
  differs : ∀ key v, getKey p (.name key) = some v →
    (∃ field, (key, field) ∈ fields ∧ field.attrs.immutable = true) →
    (key ∈ errors ↔ ∃ w, getKey e (.name key) = some w ∧ Differs v w)

theorem immutableErrors_ok (hcompares : Compares deepcompare compareNoOrder schema p e)
    (hlists : PlainLists schema p e) {fields : List (Text × Field)}
    (hfields : fields ⊆ (schema.eachField p).toList) :
    ∃ errors, immutableErrors deepcompare compareNoOrder p e fields = .ok errors
      ∧ ErrorsOf p e fields errors := by
  induction fields with
  | nil =>
    refine ⟨[], rfl, ⟨nofun, ?_⟩⟩
    rintro key v - ⟨field, hmem, -⟩
    cases hmem
  | cons entry rest ih =>
    obtain ⟨key, field⟩ := entry
    obtain ⟨errors, herrors, hof⟩ := ih (List.cons_subset.mp hfields).2
    obtain ⟨kept, hkept, himmutable, habsent, hdiffers⟩ :=
      keepsValue_ok hcompares hlists (List.cons_subset.mp hfields).1
    refine ⟨_, immutableErrors_cons hkept herrors, ?_⟩
    -- the errors of the rest are right for the keys that the rest declares
    have hrest : ∀ name v, getKey p (.name name) = some v → name ∈ errors →
        ∃ w, getKey e (.name name) = some w ∧ Differs v w := fun name v hv hname =>
      (hof.differs name v hv (hof.declared name hname)).mp hname
    cases kept with
    | true =>
      constructor
      · intro name hname
        obtain ⟨found, hfound, hattrs⟩ := hof.declared name hname
        exact ⟨found, List.mem_cons_of_mem _ hfound, hattrs⟩
      · rintro name v hv ⟨found, hfound, hattrs⟩
        refine ⟨hrest name v hv, ?_⟩
        rintro ⟨w, hw, hdiffer⟩
        rcases List.mem_cons.mp hfound with heq | hfound
        · cases heq
          exact absurd ((hdiffers v w hattrs hv hw).mpr hdiffer) (by decide)
        · exact (hof.differs name v hv ⟨found, hfound, hattrs⟩).mpr ⟨w, hw, hdiffer⟩
    | false =>
      constructor
      · intro name hname
        rcases List.mem_cons.mp hname with rfl | hname
        · exact ⟨field, List.mem_cons_self, himmutable rfl⟩
        · obtain ⟨found, hfound, hattrs⟩ := hof.declared name hname
          exact ⟨found, List.mem_cons_of_mem _ hfound, hattrs⟩
      · rintro name v hv ⟨found, hfound, hattrs⟩
        constructor
        · intro hname
          rcases List.mem_cons.mp hname with rfl | hname
          · cases hw : getKey e (.name name) with
            | none => exact absurd (habsent (himmutable rfl) hw) (by decide)
            | some w => exact ⟨w, rfl, (hdiffers v w (himmutable rfl) hv hw).mp rfl⟩
          · exact hrest name v hv hname
        · rintro ⟨w, hw, hdiffer⟩
          rcases List.mem_cons.mp hfound with heq | hfound
          · cases heq
            exact List.mem_cons_self
          · exact List.mem_cons_of_mem _
              ((hof.differs name v hv ⟨found, hfound, hattrs⟩).mpr ⟨w, hw, hdiffer⟩)

/-- Without an immutable field the check is left out, and would find nothing. -/
theorem immutableErrors_of_none {fields : List (Text × Field)}
    (h : (fields.any fun field => field.2.attrs.immutable) = false) :
    immutableErrors deepcompare compareNoOrder p e fields = .ok [] := by
  induction fields with
  | nil => rfl
  | cons entry rest ih =>
    obtain ⟨key, field⟩ := entry
    rw [List.any_cons, Bool.or_eq_false_iff] at h
    have hkept : keepsValue deepcompare compareNoOrder p e key field = .ok true := by
      rw [keepsValue, if_neg (Bool.eq_false_iff.mp h.1)]
    rw [immutableErrors_cons hkept (ih h.2)]
    rfl

theorem checkUpdate_eq :
    checkUpdate deepcompare compareNoOrder schema p (some e) = (do
      let errors ← immutableErrors deepcompare compareNoOrder p e (schema.eachField p).toList
      if errors = [] then do
        let merged ← schema.mergeValues p (some (.table e))
        .ok (.merged merged)
      else .ok (.immutable errors)) := by
  unfold checkUpdate
  cases hany : (schema.eachField p).toList.any fun field => field.2.attrs.immutable with
  | true =>
    simp only [hany]
    rfl
  | false =>
    simp only [hany, immutableErrors_of_none hany]
    rfl

end

/-! ## Patches -/

/-- **Patches.** A patch over a stored entity with the same subschema is
what the patch says where it sets a path, what the entity has where it says
nothing, and a record between these; a second time it changes nothing. And
an update is refused for the immutable fields that the patch gives with a
value that differs from the stored one. -/
theorem patch_over_stored (schema : Schema) (e : StoredEntity schema) (p : Table)
    (hsame : SameSubschema schema p e.table) {deepcompare : Option Value → Value → Bool}
    {compareNoOrder : Value → Value → Lua Bool}
    (hcompares : Compares deepcompare compareNoOrder schema p e.table)
    (hlists : PlainLists schema p e.table) :
    ∃ m, schema.mergeValues p (some (.table e.table)) = .ok m
      ∧ (∀ path, MergedAt (schema.eachField e.table) p e.table m path)
      ∧ (∃ again, schema.mergeValues p (some (.table m)) = .ok again
        ∧ (Value.table again).Same (.table m))
      ∧ ∃ errors, checkUpdate deepcompare compareNoOrder schema p (some e.table)
          = .ok (if errors = [] then .merged m else .immutable errors)
        ∧ ∀ key v, schema.Immutable p key → getKey p (.name key) = some v →
          (key ∈ errors ↔ ∃ w, getKey e.table (.name key) = some w ∧ Differs v w) := by
  obtain ⟨m, hm⟩ := (schema.eachField e.table).merge_of_fits p e.table
    (copyTo p (copyTo e.table []))
    ((schema.eachField e.table).fits_of_shaped p e.table e.shaped)
  have hmerge : schema.mergeValues p (some (.table e.table)) = .ok m := hm
  refine ⟨m, hmerge, fun path => merged_at path hm, ?_, ?_⟩
  · have hsub := subschema_mergeValues hmerge hsame
    obtain ⟨again, hagain, hsameValue⟩ :=
      @mergeTables_twice (schema.eachField e.table) p e.table m hm
    refine ⟨again, ?_, hsameValue⟩
    rw [mergeValues_eq]
    unfold Schema.eachField at hagain ⊢
    rw [hsub]
    exact hagain
  · obtain ⟨errors, herrors, hof⟩ := immutableErrors_ok hcompares hlists (List.Subset.refl _)
    refine ⟨errors, ?_, fun key v himmutable hv => hof.differs key v hv himmutable⟩
    rw [checkUpdate_eq, herrors, hmerge]
    show (if errors = [] then _ else _) = _
    split
    · rfl
    · rfl

/-- An immutable list of tags, and a record of two fields. -/
def taggedSchema : Schema where
  fields := .cons (ofText "tags") (.other { immutable := true })
    (.cons (ofText "config") (.record {}
      (.cons (ofText "a") (.other {}) (.cons (ofText "b") (.other {}) .nil))) .nil)
  key_plain := by
    intro key hkey
    cases hkey
  key_kept := by
    intro key hkey
    cases hkey

def tagList (tags : List String) : Value :=
  .table (tags.zipIdx.map fun tag => (.index (tag.2 + 1), .scalar (.str (ofText tag.1))))

def numberValue (n : ℚ) : Value := .scalar (.num n)

def taggedEntity : StoredEntity taggedSchema where
  table := [(.name (ofText "tags"), tagList ["x", "y"]),
    (.name (ofText "config"),
      .table [(.name (ofText "a"), numberValue 1), (.name (ofText "b"), numberValue 2)])]
  shaped := by
    refine ⟨trivial, .inr ⟨_, rfl, ?_⟩, trivial⟩
    exact ⟨trivial, trivial, trivial⟩

/-- The tags in another order, and another value of one field. -/
def reorderedPatch : Table :=
  [(.name (ofText "tags"), tagList ["y", "x"]),
    (.name (ofText "config"), .table [(.name (ofText "a"), numberValue 3)])]

/-- `deepcompare` of values that are no tables. -/
def plainDeepcompare (value : Option Value) (stored : Value) : Bool :=
  value.map Value.kind = some stored.kind

/-- `compare_no_order` of plain values. -/
def plainCompareNoOrder (value stored : Value) : Lua Bool :=
  .ok ((value.items.map Value.kind).isPerm (stored.items.map Value.kind))

theorem immutable_tags : taggedSchema.Immutable reorderedPatch (ofText "tags") :=
  ⟨.other { immutable := true }, List.mem_cons_self, rfl⟩

theorem immutable_only_tags {key : Text} (h : taggedSchema.Immutable reorderedPatch key) :
    key = ofText "tags" := by
  obtain ⟨field, hmem, himmutable⟩ := h
  have hfields : (taggedSchema.eachField reorderedPatch).toList
      = [(ofText "tags", .other { immutable := true }),
        (ofText "config", .record {}
          (.cons (ofText "a") (.other {}) (.cons (ofText "b") (.other {}) .nil)))] := rfl
  rw [hfields, List.mem_cons, List.mem_singleton] at hmem
  rcases hmem with heq | heq
  · cases heq
    rfl
  · cases heq
    cases himmutable

/-- The field of the record that the patch does not give is kept. -/
theorem reordered_patch_keeps_field :
    ∃ m, taggedSchema.mergeValues reorderedPatch (some (.table taggedEntity.table)) = .ok m
      ∧ (Value.table m).at [.name (ofText "config"), .name (ofText "b")] = some (numberValue 2) := by
  have hcompares : Compares plainDeepcompare plainCompareNoOrder taggedSchema reorderedPatch
      taggedEntity.table := by
    constructor
    · intro key v w himmutable hv _ harray
      cases immutable_only_tags himmutable
      cases hv
      exact absurd harray (by decide +kernel)
    · intro key v w himmutable hv hw _ _
      cases immutable_only_tags himmutable
      cases hv
      cases hw
      exact ⟨true, rfl, iff_of_true rfl (List.Perm.swap _ _ _)⟩
  have hlists : PlainLists taggedSchema reorderedPatch taggedEntity.table := by
    intro key v w himmutable hv hw _
    cases immutable_only_tags himmutable
    cases hv
    cases hw
    refine ⟨⟨by decide +kernel, ?_⟩, ⟨by decide +kernel, ?_⟩⟩
    · intro item hitem
      rcases List.mem_pair.mp hitem with rfl | rfl
      · exact nofun
      · exact nofun
    · intro item hitem
      rcases List.mem_pair.mp hitem with rfl | rfl
      · exact nofun
      · exact nofun
  obtain ⟨m, hm, hat, -⟩ := patch_over_stored taggedSchema taggedEntity reorderedPatch nofun
    hcompares hlists
  refine ⟨m, hm, ?_⟩
  exact (hat [.name (ofText "config"), .name (ofText "b")]).silent (by decide +kernel)

/-- An update that reorders an immutable list changes its value, and is not
refused. -/
theorem reordered_list_accepted :
    ∃ v w, taggedSchema.Immutable reorderedPatch (ofText "tags")
      ∧ getKey reorderedPatch (.name (ofText "tags")) = some v
      ∧ getKey taggedEntity.table (.name (ofText "tags")) = some w
      ∧ ¬ v.Same w
      ∧ ∃ m, checkUpdate plainDeepcompare plainCompareNoOrder taggedSchema reorderedPatch
        (some taggedEntity.table) = .ok (.merged m) := by
  refine ⟨tagList ["y", "x"], tagList ["x", "y"], immutable_tags, rfl, rfl, ?_, ⟨_, rfl⟩⟩
  intro h
  have hfirst := h [.index 1]
  revert hfirst
  decide +kernel

end KongGateway.Kong.Db.Patch

import KongGateway.Kong.Db.Declarative

/-!
# Keys — what a key says

The parts of an item key, a unique key and a foreign key can be read back
when none of them but the last contains a bar. Primary keys of one field
are their own string; the parts of composite ones can be read back when
none contains a colon.
-/

namespace KongGateway.Kong.Db.Declarative

open Bytes

/-! ## Normal forms -/

theorem itemKey_eq {schemaName wsId pk : Text} (h : wsId ≠ globalWorkspaceTag) :
    itemKey schemaName wsId pk
      = ofText "I" ++ bar :: (schemaName ++ bar :: (wsId ++ bar :: pk)) := by
  simp [itemKey, itemKeyPrefix, h, concat]

theorem uniqueFieldKey_eq (env : Env) (schemaName wsId field value : Text) :
    uniqueFieldKey env schemaName wsId field value
      = ofText "U" ++ bar :: (schemaName ++ bar :: (field ++ bar :: (wsId ++ bar ::
          env.sha256Hex value))) := rfl

theorem foreignFieldKeyPrefix_eq {schemaName wsId field foreignId : Text}
    (h : wsId ≠ globalWorkspaceTag) :
    foreignFieldKeyPrefix schemaName wsId field foreignId
      = ofText "F" ++ bar :: (schemaName ++ bar :: (field ++ bar :: (foreignId ++ bar ::
          (wsId ++ bar :: [])))) := by
  simp [foreignFieldKeyPrefix, h, concat]

theorem foreignFieldKey_eq {schemaName wsId field foreignId pk : Text}
    (h : wsId ≠ globalWorkspaceTag) :
    foreignFieldKey schemaName wsId field foreignId pk
      = ofText "F" ++ bar :: (schemaName ++ bar :: (field ++ bar :: (foreignId ++ bar ::
          (wsId ++ bar :: pk)))) := by
  simp [foreignFieldKey, foreignFieldKeyPrefix_eq h]

/-! ## Reading keys back -/

/-- A part of a key that is not its last. -/
def Plain (s : Text) : Prop := bar ∉ s

instance (s : Text) : Decidable (Plain s) := inferInstanceAs (Decidable (bar ∉ s))

theorem plain_I : Plain (ofText "I") := by decide
theorem plain_U : Plain (ofText "U") := by decide
theorem plain_F : Plain (ofText "F") := by decide

section

variable {name name' wsId wsId' field field' fid fid' pk pk' : Text}

theorem itemKey_inj (hname : Plain name) (hname' : Plain name') (hws : Plain wsId)
    (hws' : Plain wsId') (hg : wsId ≠ globalWorkspaceTag) (hg' : wsId' ≠ globalWorkspaceTag)
    (h : itemKey name wsId pk = itemKey name' wsId' pk') :
    name = name' ∧ wsId = wsId' ∧ pk = pk' := by
  rw [itemKey_eq hg, itemKey_eq hg'] at h
  have h1 := (append_sep_inj plain_I plain_I h).2
  obtain ⟨rfl, h2⟩ := append_sep_inj hname hname' h1
  obtain ⟨rfl, h3⟩ := append_sep_inj hws hws' h2
  exact ⟨rfl, rfl, h3⟩

theorem uniqueFieldKey_inj {env : Env} {value value' : Text} (hname : Plain name)
    (hname' : Plain name') (hfield : Plain field) (hfield' : Plain field') (hws : Plain wsId)
    (hws' : Plain wsId')
    (h : uniqueFieldKey env name wsId field value = uniqueFieldKey env name' wsId' field' value') :
    name = name' ∧ field = field' ∧ wsId = wsId' ∧ env.sha256Hex value = env.sha256Hex value' := by
  rw [uniqueFieldKey_eq, uniqueFieldKey_eq] at h
  have h1 := (append_sep_inj plain_U plain_U h).2
  obtain ⟨rfl, h2⟩ := append_sep_inj hname hname' h1
  obtain ⟨rfl, h3⟩ := append_sep_inj hfield hfield' h2
  obtain ⟨rfl, h4⟩ := append_sep_inj hws hws' h3
  exact ⟨rfl, rfl, rfl, h4⟩

/-- A foreign key with the prefix of a query has the parts of the query. -/
theorem foreignFieldKey_of_isPrefix (hname : Plain name) (hname' : Plain name')
    (hfield : Plain field) (hfield' : Plain field') (hfid : Plain fid) (hfid' : Plain fid')
    (hws : Plain wsId) (hws' : Plain wsId') (hg : wsId ≠ globalWorkspaceTag)
    (hg' : wsId' ≠ globalWorkspaceTag)
    (h : foreignFieldKeyPrefix name wsId field fid <+: foreignFieldKey name' wsId' field' fid' pk') :
    name = name' ∧ field = field' ∧ fid = fid' ∧ wsId = wsId' := by
  obtain ⟨rest, h⟩ := h
  rw [foreignFieldKeyPrefix_eq hg, foreignFieldKey_eq hg'] at h
  simp only [List.append_assoc, List.cons_append, List.nil_append] at h
  have h1 := (append_sep_inj plain_F plain_F h).2
  obtain ⟨rfl, h2⟩ := append_sep_inj hname hname' h1
  obtain ⟨rfl, h3⟩ := append_sep_inj hfield hfield' h2
  obtain ⟨rfl, h4⟩ := append_sep_inj hfid hfid' h3
  obtain ⟨rfl, -⟩ := append_sep_inj hws hws' h4
  exact ⟨rfl, rfl, rfl, rfl⟩

theorem foreignFieldKey_inj (hname : Plain name) (hname' : Plain name')
    (hfield : Plain field) (hfield' : Plain field') (hfid : Plain fid) (hfid' : Plain fid')
    (hws : Plain wsId) (hws' : Plain wsId') (hg : wsId ≠ globalWorkspaceTag)
    (hg' : wsId' ≠ globalWorkspaceTag)
    (h : foreignFieldKey name wsId field fid pk = foreignFieldKey name' wsId' field' fid' pk') :
    name = name' ∧ field = field' ∧ fid = fid' ∧ wsId = wsId' ∧ pk = pk' := by
  obtain ⟨rfl, rfl, rfl, rfl⟩ := foreignFieldKey_of_isPrefix hname hname' hfield hfield' hfid
    hfid' hws hws' hg hg' ⟨pk, h⟩
  exact ⟨rfl, rfl, rfl, rfl, List.append_cancel_left h⟩

end

/-! Keys of different kinds start with different letters. -/

theorem head?_itemKey (name wsId pk : Text) : (itemKey name wsId pk).head? = some 73 := by
  unfold itemKey itemKeyPrefix
  split <;> rfl

theorem head?_uniqueFieldKey (env : Env) (name wsId field value : Text) :
    (uniqueFieldKey env name wsId field value).head? = some 85 := rfl

theorem head?_foreignFieldKey (name wsId field fid pk : Text) :
    (foreignFieldKey name wsId field fid pk).head? = some 70 := by
  unfold foreignFieldKey foreignFieldKeyPrefix
  split <;> rfl

/-! ## Primary keys -/

theorem concat_cons_cons (sep : Byte) (s t : Text) (rest : List Text) :
    concat sep (s :: t :: rest) = s ++ sep :: concat sep (t :: rest) := rfl

theorem concat_inj {sep : Byte} {a b : List Text} (ha : ∀ s ∈ a, sep ∉ s) (hb : ∀ s ∈ b, sep ∉ s)
    (hlength : a.length = b.length) (h : concat sep a = concat sep b) : a = b := by
  induction a generalizing b with
  | nil =>
    cases b with
    | nil => rfl
    | cons t b => cases hlength
  | cons s a ih =>
    cases b with
    | nil => cases hlength
    | cons t b =>
      have ha' : ∀ s ∈ a, sep ∉ s := fun x hx => ha x (List.mem_cons_of_mem s hx)
      have hb' : ∀ s ∈ b, sep ∉ s := fun x hx => hb x (List.mem_cons_of_mem t hx)
      have hlen : a.length = b.length := Nat.succ.inj hlength
      cases a with
      | nil =>
        obtain rfl := List.length_eq_zero_iff.mp hlen.symm
        exact congrArg (fun x => [x]) h
      | cons s' a =>
        cases b with
        | nil => cases hlen
        | cons t' b =>
          rw [concat_cons_cons, concat_cons_cons] at h
          obtain ⟨rfl, hrest⟩ := append_sep_inj (ha s List.mem_cons_self)
            (hb t List.mem_cons_self) h
          rw [ih ha' hb' hlen hrest]

/-- The strings of the fields of a primary key. -/
def pkParts (schema : Schema) (object : Text → Option FieldValue) : List Text :=
  schema.primaryKey.map (pkPart schema object)

/-- A primary key as the schema validates it: a key of one field has a
string; the parts of a composite one contain no colon. -/
structure PrimaryKeyOk (schema : Schema) (object : Text → Option FieldValue) : Prop where
  single : ∀ k, schema.primaryKey = [k] → ∃ s, object k = some (.text s)
  composite : schema.primaryKey.length ≠ 1 → ∀ part ∈ pkParts schema object, colon ∉ part

theorem pkString_single {schema : Schema} {object : Text → Option FieldValue} {k : Text}
    (hk : schema.primaryKey = [k]) : pkString schema object = tostring (object k) := by
  unfold pkString
  rw [hk]

theorem pkString_composite {schema : Schema} {object : Text → Option FieldValue}
    (h : schema.primaryKey.length ≠ 1) :
    pkString schema object = concat colon (pkParts schema object) := by
  unfold pkString pkParts
  split
  · rename_i k hk
    rw [hk] at h
    exact absurd rfl h
  · rfl

theorem pkString_inj {schema : Schema} {object object' : Text → Option FieldValue}
    (h : PrimaryKeyOk schema object) (h' : PrimaryKeyOk schema object')
    (heq : pkString schema object = pkString schema object') :
    pkParts schema object = pkParts schema object' := by
  by_cases hlen : schema.primaryKey.length = 1
  · obtain ⟨k, hk⟩ := List.length_eq_one_iff.mp hlen
    obtain ⟨s, hs⟩ := h.single k hk
    obtain ⟨s', hs'⟩ := h'.single k hk
    rw [pkString_single hk, pkString_single hk, hs, hs'] at heq
    obtain rfl : s = s' := heq
    simp only [pkParts, hk, List.map_cons, List.map_nil, pkPart, hs, hs']
  · rw [pkString_composite hlen, pkString_composite hlen] at heq
    refine concat_inj (h.composite hlen) (h'.composite hlen) ?_ heq
    rw [pkParts, pkParts, List.length_map, List.length_map]

theorem pkString_congr {schema : Schema} {object object' : Text → Option FieldValue}
    (h : PrimaryKeyOk schema object) (h' : PrimaryKeyOk schema object')
    (heq : pkParts schema object = pkParts schema object') :
    pkString schema object = pkString schema object' := by
  by_cases hlen : schema.primaryKey.length = 1
  · obtain ⟨k, hk⟩ := List.length_eq_one_iff.mp hlen
    obtain ⟨s, hs⟩ := h.single k hk
    obtain ⟨s', hs'⟩ := h'.single k hk
    simp only [pkParts, hk, List.map_cons, List.map_nil, pkPart, hs, hs', List.cons.injEq,
      and_true] at heq
    rw [pkString_single hk, pkString_single hk, hs, hs']
    exact heq
  · rw [pkString_composite hlen, pkString_composite hlen, heq]

end KongGateway.Kong.Db.Declarative

import KongGateway.Kong.Db.Declarative.Keys

/-!
# CacheKey — the keys of cached entities

`DAO:cache_key` has two paths. Lookups pass the fields of the key as
arguments and the key is one format string; invalidation passes the
entity and the key is put together from its fields, with the primary key
where no field of the cache key has a value. Both paths give the same
key. Keys tell entities apart by what the fields of the cache key hold,
as far as the primary key does not stand in, and always by the workspace.
-/

namespace KongGateway.Kong.Db.Declarative

open Bytes

/-! ## The two paths -/

/-- `DAO:cache_key` of a string and up to four further values; `none`
stands for nil and null. -/
def cacheKeyOfArguments (env : Env) (schema : Schema) (key : Text)
    (arg2 arg3 arg4 arg5 wsId : Option Text) : Text :=
  let wsId := if wsId.isNone && schema.workspaceable then some (getWorkspaceId env) else wsId
  -- "%s:%s:%s:%s:%s:%s:%s"
  schema.name ++ colon :: (key ++ colon :: (arg2.getD [] ++ colon :: (arg3.getD [] ++
    colon :: (arg4.getD [] ++ colon :: (arg5.getD [] ++ colon :: wsId.getD [])))))

/-- A value as an argument: a foreign value by its id. -/
def FieldValue.argument : FieldValue → Option Text
  | .null => none
  | .text s => some s
  | .foreign key => key.lookup (ofText "id")

/-- An entity of a schema: it has a workspace only if the schema has
one, and foreign keys only in foreign fields. -/
structure EntityOf (schema : Schema) extends Entity where
  workspaceable : wsId.isSome → schema.workspaceable
  foreign : ∀ name key, fields.lookup name = some (.foreign key) → schema.foreignField name

/-- The argument for a place of the cache key. -/
def EntityOf.argument {schema : Schema} (item : EntityOf schema) (names : List Text) (i : Nat) :
    Option Text :=
  names[i]?.bind fun name => (item.get name).bind FieldValue.argument

/-- What the fields of the cache key hold. -/
def keyValues (schema : Schema) (item : Entity) : List (Option Text) :=
  (schema.cacheKey.getD []).map (getCacheKeyValue schema item)

/-- The workspace of an entity, as far as its schema has one. -/
def keyWorkspace (env : Env) (schema : Schema) (item : Entity) : Text :=
  if schema.workspaceable then item.wsId.getD (getWorkspaceId env) else []

theorem getCacheKeyValue_eq {schema : Schema} (item : EntityOf schema) (name : Text) :
    getCacheKeyValue schema item.toEntity name = (item.get name).bind FieldValue.argument := by
  rw [getCacheKeyValue]
  cases hvalue : item.get name with
  | none => rfl
  | some value =>
    cases value with
    | null => rfl
    | text s => rfl
    | foreign key =>
      have hforeign := item.foreign name key hvalue
      simp [hforeign, FieldValue.argument]

theorem cacheKey_eq {env : Env} {schema : Schema} {item : Entity}
    (hsome : (keyValues schema item).any Option.isSome)
    (hlen : (keyValues schema item).length ≤ 5) :
    cacheKey env schema item
      = concat colon (schema.name :: (keyValues schema item).map (·.getD [])
          ++ List.replicate (5 - (keyValues schema item).length) []
          ++ [keyWorkspace env schema item]) := by
  rw [keyValues] at hsome hlen ⊢
  rw [cacheKey]
  simp only [hsome, if_true, cacheKeyValues]
  rw [if_pos (by rw [List.length_cons, List.length_map]; omega)]
  simp [keyWorkspace]

/-- **The two paths agree.** -/
theorem cacheKeyOfArguments_eq (env : Env) {schema : Schema} {first : Text} {rest : List Text}
    (hkey : schema.cacheKey = some (first :: rest)) (hlen : rest.length ≤ 4)
    (item : EntityOf schema) {s : Text} (hfirst : item.get first = some (.text s)) :
    cacheKeyOfArguments env schema s (item.argument rest 0) (item.argument rest 1)
        (item.argument rest 2) (item.argument rest 3) item.wsId
      = cacheKey env schema item.toEntity := by
  have hvalue : getCacheKeyValue schema item.toEntity first = some s := by
    rw [getCacheKeyValue_eq, hfirst]
    rfl
  have hvalues : keyValues schema item.toEntity
      = some s :: rest.map fun name => (item.get name).bind FieldValue.argument := by
    rw [keyValues, hkey, Option.getD_some, List.map_cons, hvalue]
    congr 1
    exact List.map_congr_left fun name _ => getCacheKeyValue_eq item name
  have hworkspace : (if item.wsId.isNone && schema.workspaceable then some (getWorkspaceId env)
        else item.wsId).getD [] = keyWorkspace env schema item.toEntity := by
    rw [keyWorkspace]
    have hown := item.workspaceable
    cases hws : item.wsId with
    | none => cases schema.workspaceable <;> rfl
    | some ws =>
      rw [hws] at hown
      simp [hown rfl]
  have hfew : (keyValues schema item.toEntity).length ≤ 5 := by
    rw [hvalues, List.length_cons, List.length_map]
    omega
  rw [cacheKey_eq (by simp [hvalues]) hfew, hvalues, ← hworkspace]
  simp only [cacheKeyOfArguments]
  rcases rest with _ | ⟨a, _ | ⟨b, _ | ⟨c, _ | ⟨d, _ | ⟨e, rest⟩⟩⟩⟩⟩
  · simp [EntityOf.argument, concat]
  · simp [EntityOf.argument, concat]
  · simp [EntityOf.argument, concat]
  · simp [EntityOf.argument, concat]
  · simp [EntityOf.argument, concat]
  · simp only [List.length_cons] at hlen
    omega

/-! ## Keys that tell entities apart -/

theorem concat_concat (sep : Byte) {l : List Text} (hne : l ≠ []) (last : Text) :
    concat sep (l ++ [last]) = concat sep l ++ sep :: last := by
  induction l with
  | nil => exact absurd rfl hne
  | cons s l ih =>
    cases l with
    | nil => rfl
    | cons t l =>
      rw [List.cons_append, List.cons_append, concat_cons_cons, ← List.cons_append,
        ih (List.cons_ne_nil t l), concat_cons_cons, List.append_assoc, List.cons_append]

theorem concat_cons_inj {sep : Byte} {s t : Text} {a b : List Text} (ha : ∀ u ∈ a, sep ∉ u)
    (hb : ∀ u ∈ b, sep ∉ u) (hlength : a.length = b.length)
    (h : concat sep (s :: a) = concat sep (t :: b)) : s :: a = t :: b := by
  induction a using List.reverseRecOn generalizing b with
  | nil =>
    have hnil : b = [] := List.eq_nil_of_length_eq_zero hlength.symm
    subst hnil
    exact congrArg (fun x => [x]) h
  | append_singleton a last ih =>
    rcases List.eq_nil_or_concat b with rfl | ⟨b, last', rfl⟩
    · simp at hlength
    · rw [List.concat_eq_append] at hb hlength h ⊢
      rw [List.length_append, List.length_append] at hlength
      rw [← List.cons_append, ← List.cons_append, concat_concat sep (List.cons_ne_nil s a),
        concat_concat sep (List.cons_ne_nil t b)] at h
      obtain ⟨hinit, rfl⟩ := append_sep_inj_right (ha last (by simp)) (hb last' (by simp)) h
      have hrest := ih (fun u hu => ha u (List.mem_append_left _ hu))
        (fun u hu => hb u (List.mem_append_left _ hu)) (Nat.add_right_cancel hlength) hinit
      rw [← List.cons_append, ← List.cons_append, hrest]

/-- Texts without the separator but for one place. -/
def PlainBut (sep : Byte) (k : Nat) (l : List Text) : Prop :=
  ∀ i s, l[i]? = some s → i ≠ k → sep ∉ s

theorem PlainBut.tail {sep : Byte} {k : Nat} {s : Text} {l : List Text}
    (h : PlainBut sep (k + 1) (s :: l)) : PlainBut sep k l :=
  fun i t ht hne => h (i + 1) t (by rwa [List.getElem?_cons_succ]) (by omega)

theorem PlainBut.plain {sep : Byte} {s : Text} {l : List Text} (h : PlainBut sep 0 (s :: l)) :
    ∀ u ∈ l, sep ∉ u := by
  intro u hu
  obtain ⟨i, hi⟩ := List.mem_iff_getElem?.mp hu
  exact h (i + 1) u (by rwa [List.getElem?_cons_succ]) (Nat.succ_ne_zero i)

theorem plainBut_zero {sep : Byte} {l : List Text} (h : ∀ s ∈ l.tail, sep ∉ s) :
    PlainBut sep 0 l := by
  intro i s hs hne
  obtain ⟨j, rfl⟩ := Nat.exists_eq_succ_of_ne_zero hne
  exact h s (List.mem_of_getElem? (by rw [List.getElem?_tail]; exact hs))

theorem concat_inj_but {sep : Byte} {k : Nat} {a b : List Text} (ha : PlainBut sep k a)
    (hb : PlainBut sep k b) (hlength : a.length = b.length) (h : concat sep a = concat sep b) :
    a = b := by
  induction k generalizing a b with
  | zero =>
    rcases a with _ | ⟨s, a⟩
    · exact (List.eq_nil_of_length_eq_zero hlength.symm).symm
    · rcases b with _ | ⟨t, b⟩
      · cases hlength
      · exact concat_cons_inj ha.plain hb.plain (Nat.succ.inj hlength) h
  | succ k ih =>
    rcases a with _ | ⟨s, _ | ⟨s', a⟩⟩
    · exact (List.eq_nil_of_length_eq_zero hlength.symm).symm
    · rcases b with _ | ⟨t, _ | ⟨t', b⟩⟩
      · cases hlength
      · exact congrArg (fun x => [x]) h
      · simp at hlength
    · rcases b with _ | ⟨t, _ | ⟨t', b⟩⟩
      · cases hlength
      · simp at hlength
      · rw [concat_cons_cons, concat_cons_cons] at h
        obtain ⟨rfl, hrest⟩ := append_sep_inj (ha 0 s rfl (Nat.succ_ne_zero k).symm)
          (hb 0 t rfl (Nat.succ_ne_zero k).symm) h
        rw [ih ha.tail hb.tail (Nat.succ.inj hlength) hrest]

/-- The texts that stand for the fields in a cache key. -/
def keyTexts (schema : Schema) (item : Entity) : List Text :=
  (keyValues schema item).map (·.getD [])

/-- Only the value at place `k` may have a colon. -/
structure OneColon (env : Env) (schema : Schema) (k : Nat) (item : Entity) : Prop where
  values : PlainBut colon k (keyTexts schema item)
  workspace : colon ∉ keyWorkspace env schema item

theorem OneColon.plainBut {env : Env} {schema : Schema} {k : Nat} {item : Entity}
    (h : OneColon env schema k item) (n : Nat) :
    PlainBut colon k (keyTexts schema item ++ List.replicate n []
      ++ [keyWorkspace env schema item]) := by
  intro i s hs hne
  rw [List.append_assoc] at hs
  rcases Nat.lt_or_ge i (keyTexts schema item).length with hlt | hge
  · rw [List.getElem?_append_left hlt] at hs
    exact h.values i s hs hne
  · rw [List.getElem?_append_right hge] at hs
    rcases List.mem_append.mp (List.mem_of_getElem? hs) with hmem | hmem
    · rw [List.eq_of_mem_replicate hmem]
      exact List.not_mem_nil
    · rw [List.mem_singleton.mp hmem]
      exact h.workspace

theorem concat_cons_of_ne_nil (sep : Byte) (s : Text) {l : List Text} (hne : l ≠ []) :
    concat sep (s :: l) = s ++ sep :: concat sep l := by
  obtain ⟨t, rest, rfl⟩ := List.exists_cons_of_ne_nil hne
  rfl

theorem cacheKey_inj {env env' : Env} {schema : Schema} {k : Nat} {item item' : Entity}
    (hfew : (schema.cacheKey.getD []).length ≤ 5)
    (hsome : (keyValues schema item).any Option.isSome)
    (hsome' : (keyValues schema item').any Option.isSome) (h : OneColon env schema k item)
    (h' : OneColon env' schema k item')
    (heq : cacheKey env schema item = cacheKey env' schema item') :
    keyTexts schema item = keyTexts schema item'
      ∧ keyWorkspace env schema item = keyWorkspace env' schema item' := by
  have hlen : ∀ item, (keyValues schema item).length = (schema.cacheKey.getD []).length :=
    fun item => List.length_map _
  have htexts : (keyTexts schema item).length = (keyTexts schema item').length := by
    rw [keyTexts, keyTexts, List.length_map, List.length_map, hlen, hlen]
  rw [cacheKey_eq hsome (by rw [hlen]; exact hfew), cacheKey_eq hsome' (by rw [hlen]; exact hfew),
    hlen, hlen, ← keyTexts, ← keyTexts, List.cons_append, List.cons_append, List.cons_append,
    List.cons_append, concat_cons_of_ne_nil _ _ (by simp), concat_cons_of_ne_nil _ _ (by simp)] at heq
  have hjoined := (List.cons.inj (List.append_cancel_left heq)).2
  have hparts := concat_inj_but (h.plainBut _) (h'.plainBut _) (by simp [htexts]) hjoined
  obtain ⟨hleft, hright⟩ := List.append_inj' hparts rfl
  exact ⟨(List.append_inj hleft htexts).1, List.singleton_inj.mp hright⟩

/-- Every key ends with the workspace, also where the primary key stands in. -/
theorem cacheKey_workspace (env : Env) {schema : Schema} (item : Entity)
    (hfew : (schema.cacheKey.getD []).length ≤ 5) (hprimary : schema.primaryKey.length ≤ 5) :
    ∃ before, cacheKey env schema item = before ++ colon :: keyWorkspace env schema item := by
  have hkey : ∀ values : List (Option Text), values.length ≤ 5 →
      ∃ before, concat colon (cacheKeyValues (schema.name :: values.map (·.getD []))
        (keyWorkspace env schema item)) = before ++ colon :: keyWorkspace env schema item := by
    intro values hlen
    rw [cacheKeyValues, if_pos (by rw [List.length_cons, List.length_map]; omega),
      concat_concat colon (by simp)]
    exact ⟨_, rfl⟩
  refine hkey _ ?_
  split
  · rwa [List.length_map]
  · rwa [List.length_map]

/-- **Cache keys.** A key from the values as arguments is the key from
the entity. Entities of which each has some value in the cache key
have different keys, if the values or the workspaces differ; a missing
value counts as an empty one. And entities of different workspaces have
different keys whatever they hold. -/
theorem cacheKey_exact :
    (∀ (env : Env) (schema : Schema) (first : Text) (rest : List Text),
      schema.cacheKey = some (first :: rest) → rest.length ≤ 4 →
      ∀ (item : EntityOf schema) (s : Text), item.get first = some (.text s) →
        cacheKeyOfArguments env schema s (item.argument rest 0) (item.argument rest 1)
            (item.argument rest 2) (item.argument rest 3) item.wsId
          = cacheKey env schema item.toEntity)
    ∧ (∀ (env env' : Env) (schema : Schema) (k : Nat) (item item' : EntityOf schema),
        (schema.cacheKey.getD []).length ≤ 5 →
        (keyValues schema item.toEntity).any Option.isSome →
        (keyValues schema item'.toEntity).any Option.isSome →
        OneColon env schema k item.toEntity → OneColon env' schema k item'.toEntity →
        keyTexts schema item.toEntity ≠ keyTexts schema item'.toEntity
            ∨ keyWorkspace env schema item.toEntity ≠ keyWorkspace env' schema item'.toEntity →
          cacheKey env schema item.toEntity ≠ cacheKey env' schema item'.toEntity)
    ∧ ∀ (env env' : Env) (schema : Schema) (item item' : EntityOf schema),
        (schema.cacheKey.getD []).length ≤ 5 → schema.primaryKey.length ≤ 5 →
        colon ∉ keyWorkspace env schema item.toEntity →
        colon ∉ keyWorkspace env' schema item'.toEntity →
        keyWorkspace env schema item.toEntity ≠ keyWorkspace env' schema item'.toEntity →
          cacheKey env schema item.toEntity ≠ cacheKey env' schema item'.toEntity := by
  refine ⟨fun env schema first rest hkey hlen item s hfirst =>
    cacheKeyOfArguments_eq env hkey hlen item hfirst, ?_, ?_⟩
  · intro env env' schema k item item' hfew hsome hsome' h h' hdiffer heq
    obtain ⟨htexts, hworkspace⟩ := cacheKey_inj hfew hsome hsome' h h' heq
    rcases hdiffer with hdiffer | hdiffer
    · exact hdiffer htexts
    · exact hdiffer hworkspace
  · intro env env' schema item item' hfew hprimary hws hws' hdiffer heq
    obtain ⟨before, hkey⟩ := cacheKey_workspace env item.toEntity hfew hprimary
    obtain ⟨before', hkey'⟩ := cacheKey_workspace env' item'.toEntity hfew hprimary
    rw [hkey, hkey'] at heq
    exact hdiffer (append_sep_inj_right hws hws' heq).2

/-! ## A primary key that stands in -/

/-- A schema whose cache key has two optional fields. -/
def foo : Schema where
  name := ofText "Foo"
  primaryKey := [ofText "a"]
  fields := [⟨ofText "a", none, false, false⟩, ⟨ofText "b", none, false, false⟩,
    ⟨ofText "u", none, false, false⟩]
  workspaceable := false
  cacheKey := some [ofText "b", ofText "u"]
  ttl := false

/-- An entity with the given numbers and texts. -/
def fooOf (fields : List (String × String)) : EntityOf foo where
  fields := fields.map fun f => (ofText f.1, .text (ofText f.2))
  wsId := none
  ttl := none
  workspaceable h := by cases h
  foreign name key h := by
    obtain ⟨before, after, heq, -⟩ := List.lookup_eq_some_iff.mp h
    have hmem : (name, FieldValue.foreign key)
        ∈ fields.map fun f => (ofText f.1, FieldValue.text (ofText f.2)) := by
      rw [heq]
      simp
    simp at hmem

def request : Env where
  db _ := none
  sha256Hex s := s
  defaultWorkspace := ofText "default"
  ctxWorkspace := none

theorem oneColon_foo {k : Nat} {item : EntityOf foo}
    (h : PlainBut colon k (keyTexts foo item.toEntity)) : OneColon request foo k item.toEntity :=
  ⟨h, List.not_mem_nil⟩

theorem plainBut_of_plain {sep : Byte} {k : Nat} {l : List Text} (h : ∀ s ∈ l, sep ∉ s) :
    PlainBut sep k l :=
  fun _ s hs _ => h s (List.mem_of_getElem? hs)

/-- An entity without values in its cache key, and one that has the
primary key of the first as a value. -/
theorem cacheKey_stand_in :
    OneColon request foo 0 (fooOf [("a", "42")]).toEntity
      ∧ OneColon request foo 0 (fooOf [("a", "7"), ("b", "42")]).toEntity
      ∧ keyValues foo (fooOf [("a", "42")]).toEntity
          ≠ keyValues foo (fooOf [("a", "7"), ("b", "42")]).toEntity
      ∧ cacheKey request foo (fooOf [("a", "42")]).toEntity
          = cacheKey request foo (fooOf [("a", "7"), ("b", "42")]).toEntity :=
  ⟨oneColon_foo (plainBut_of_plain (by decide)), oneColon_foo (plainBut_of_plain (by decide)),
    by decide, by decide⟩

/-- An entity without fields, of a schema with workspaces. -/
def bare : EntityOf { foo with workspaceable := true } where
  fields := []
  wsId := none
  ttl := none
  workspaceable h := by cases h
  foreign name key h := by cases h

/-- A value with a colon and two values that it is put together from; and
an entity without values in two workspaces. -/
theorem cacheKey_exact_foo :
    cacheKeyOfArguments request foo (ofText "x")
        ((fooOf [("a", "1"), ("b", "x"), ("u", "y")]).argument [ofText "u"] 0)
        ((fooOf [("a", "1"), ("b", "x"), ("u", "y")]).argument [ofText "u"] 1)
        ((fooOf [("a", "1"), ("b", "x"), ("u", "y")]).argument [ofText "u"] 2)
        ((fooOf [("a", "1"), ("b", "x"), ("u", "y")]).argument [ofText "u"] 3) none
      = cacheKey request foo (fooOf [("a", "1"), ("b", "x"), ("u", "y")]).toEntity
    ∧ cacheKey request foo (fooOf [("a", "1"), ("b", "x:y")]).toEntity
        ≠ cacheKey request foo (fooOf [("a", "1"), ("b", "x"), ("u", "y")]).toEntity
    ∧ cacheKey request { foo with workspaceable := true } bare.toEntity
        ≠ cacheKey { request with ctxWorkspace := some (ofText "other") }
          { foo with workspaceable := true } bare.toEntity :=
  ⟨cacheKey_exact.1 request foo (ofText "b") [ofText "u"] rfl (by decide)
      (fooOf [("a", "1"), ("b", "x"), ("u", "y")]) (ofText "x") (by decide),
    cacheKey_exact.2.1 request request foo 0 (fooOf [("a", "1"), ("b", "x:y")])
      (fooOf [("a", "1"), ("b", "x"), ("u", "y")]) (by decide) (by decide) (by decide)
      (oneColon_foo (plainBut_zero (by decide))) (oneColon_foo (plainBut_of_plain (by decide)))
      (.inl (by decide)),
    cacheKey_exact.2.2 request { request with ctxWorkspace := some (ofText "other") }
      { foo with workspaceable := true } bare bare (by decide) (by decide) (by decide) (by decide)
      (by decide)⟩

end KongGateway.Kong.Db.Declarative

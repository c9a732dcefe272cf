import KongGateway.Kong.Db.Declarative.Keys
import KongGateway.Kong.Db.Schema.Accepted

/-!
# GeneratedIds — names that ids are generated from

The id of an item without one is a UUID of a name: values of the item and
of the entity it is in, joined with colons. Colons inside values are not
escaped, a null or a table among the fields of a cache key leaves no mark at
all, and an absent field leaves the mark of an empty one, so that items
which differ may have the same name.
-/

namespace KongGateway.Kong.Db.DeclarativeConfig

open Bytes Declarative

/-! ## The values in a name -/

/-- The primary key of the entity that an item is in. -/
def parentKey (p : Params) (parent : Parent) : List (Text × Text) :=
  ((p.schema parent.entity).map fun schema => extractPkValues schema parent.own).getD []

/-- A cache key field of an item: its own value, or the id of the entity
that it is in by this field. -/
def cacheKeyValue (p : Params) (parent : Option Parent) (entity : Text) (item : Entity) (k : Text) :
    Option FieldValue :=
  (item.get k).or (parent.bind fun parent =>
    if foreignChild p parent.entity entity = some k then
      ((parentKey p parent).lookup (ofText "id")).map .text
    else none)

/-- What a value adds to a name: null and tables add nothing, an absent
value adds an empty part. -/
def printed : Option FieldValue → List Text
  | none => [[]]
  | some (.text s) => [s]
  | some _ => []

/-- The values that a foreign field adds to an endpoint key. -/
def cascadeValues (p : Params) (schema : EntitySchema) (parent : Option Parent) (item : Entity)
    (field : Field) : List (Option FieldValue) :=
  match field.reference with
  | none => []
  | some reference =>
    if (schema.attributes field.name).cascade then
      match parent with
      | none => [item.get field.name]
      | some parent =>
        ((((p.schema reference).map fun schema => schema.primaryKey).getD []).filterMap fun k =>
          (parentKey p parent).lookup k).map fun value => some (.text value)
    else []

/-- The values in the name of an item: for a type with a cache key the type,
the workspace and the fields; otherwise the endpoint key and, if it is not
unique, the parents and the workspace. -/
def nameValues (p : Params) (schema : EntitySchema) (parent : Option Parent) (entity : Text)
    (item : Entity) : List (Option FieldValue) :=
  match schema.cacheKey, schema.endpointKey with
  | some cacheKey, _ =>
    some (.text entity) :: some (.text (wsIdFor item))
      :: cacheKey.map (cacheKeyValue p parent entity item)
  | none, some endpointKey =>
    item.get endpointKey :: match schema.field endpointKey with
      | none => []
      | some field =>
        if field.unique then []
        else schema.fields.flatMap (cascadeValues p schema parent item)
          ++ if field.uniqueAcrossWs then [] else [some (.text (wsIdFor item))]
  | none, none => []

def nameParts (p : Params) (schema : EntitySchema) (parent : Option Parent) (entity : Text)
    (item : Entity) : List Text :=
  (nameValues p schema parent entity item).flatMap printed

section Names

variable {p : Params} {schema : EntitySchema} {parent : Option Parent} {entity : Text}
  {item : Entity}

theorem parentKey_eq {parent : Parent} {fk : List (Text × Text)} (h : parentFk p parent = .ok fk) :
    parentKey p parent = fk := by
  obtain ⟨schema, hschema, h⟩ := MapM.bind_ok h
  obtain rfl := Except.ok.inj h
  simp [parentKey, orRaise_ok hschema]

theorem cacheKeyPart_ok {k : Text} {part : List Text}
    (h : cacheKeyPart p schema parent entity item k = .ok (some part)) :
    part = printed (cacheKeyValue p parent entity item k) := by
  unfold cacheKeyPart at h
  unfold cacheKeyValue
  split at h
  · cases h
  · cases hget : item.get k with
    | some value =>
      cases value with
      | text s =>
        simp only [hget] at h
        exact (Option.some.inj (Except.ok.inj h)).symm
      | null =>
        simp only [hget] at h
        exact (Option.some.inj (Except.ok.inj h)).symm
      | foreign fk =>
        simp only [hget] at h
        exact (Option.some.inj (Except.ok.inj h)).symm
    | none =>
      simp only [hget] at h
      cases parent with
      | none =>
        simp only at h
        split at h
        · cases h
        · exact (Option.some.inj (Except.ok.inj h)).symm
      | some parent =>
        simp only [Option.bind_some, Option.none_or] at h ⊢
        split at h
        · rename_i hchild
          rw [if_pos hchild]
          obtain ⟨fk, hfk, h⟩ := MapM.bind_ok h
          rw [parentKey_eq hfk]
          split at h
          · rename_i name id
            split at h
            · rename_i hname
              obtain rfl : [id] = part := Option.some.inj (Except.ok.inj h)
              simp [hname, printed]
            · cases h
          · cases h
        · rename_i hchild
          rw [if_neg hchild]
          split at h
          · cases h
          · exact (Option.some.inj (Except.ok.inj h)).symm

theorem cacheKeyParts_ok {ks parts : List Text}
    (h : cacheKeyParts p schema parent entity item ks = .ok (some parts)) :
    parts = ks.flatMap fun k => printed (cacheKeyValue p parent entity item k) := by
  induction ks generalizing parts with
  | nil => exact (Option.some.inj (Except.ok.inj h)).symm
  | cons k ks ih =>
    rw [cacheKeyParts] at h
    obtain ⟨part, hpart, h⟩ := MapM.bind_ok h
    cases part with
    | none => cases h
    | some part =>
      obtain ⟨rest, hrest, h⟩ := MapM.bind_ok h
      obtain ⟨rest, rfl, rfl⟩ := Option.map_eq_some_iff.mp (Except.ok.inj h)
      rw [List.flatMap_cons, ← cacheKeyPart_ok hpart, ← ih hrest]

theorem mapM_orRaise_ok {f : Text → Option Text} {ks values : List Text}
    (h : ks.mapM (fun k => orRaise (f k)) = .ok values) : values = ks.filterMap f := by
  induction ks generalizing values with
  | nil =>
    obtain rfl : [] = values := by simpa [pure, Except.pure] using h
    rfl
  | cons k ks ih =>
    obtain ⟨value, rest, hvalue, hrest, rfl⟩ := MapM.cons_ok h
    rw [List.filterMap_cons, orRaise_ok hvalue, ← ih hrest]

theorem flatMap_printed_text (parts : List Text) :
    (parts.map fun part => some (FieldValue.text part)).flatMap printed = parts := by
  induction parts with
  | nil => rfl
  | cons part parts ih => rw [List.map_cons, List.flatMap_cons, ih]; rfl

theorem cascadeParts_ok {field : Field} {reference : Text} {parts : List Text}
    (href : field.reference = some reference) (hcascade : (schema.attributes field.name).cascade)
    (h : cascadeParts p parent item field reference = .ok parts) :
    parts = (cascadeValues p schema parent item field).flatMap printed := by
  unfold cascadeParts at h
  unfold cascadeValues
  simp only [href, hcascade, if_true]
  cases parent with
  | none =>
    cases hget : item.get field.name with
    | none => simp [hget] at h
    | some value =>
      cases value with
      | text s =>
        simp only [hget] at h
        simpa [printed] using (Except.ok.inj h).symm
      | null => simp [hget] at h
      | foreign fk => simp [hget] at h
  | some parent =>
    simp only at h ⊢
    obtain ⟨fk, hfk, h⟩ := MapM.bind_ok h
    obtain ⟨schema', hschema', h⟩ := MapM.bind_ok h
    rw [parentKey_eq hfk, orRaise_ok hschema', flatMap_printed_text]
    exact mapM_orRaise_ok h

theorem endpointKeyParts_ok {key : Text} {parts : List Text}
    (h : endpointKeyParts p schema parent item key = .ok parts) :
    parts = key :: (schema.fields.flatMap (cascadeValues p schema parent item)).flatMap printed := by
  obtain ⟨lists, hlists, h⟩ := MapM.bind_ok h
  obtain rfl := Except.ok.inj h
  have hmap : lists = schema.fields.map fun field =>
      (cascadeValues p schema parent item field).flatMap printed := by
    refine MapM.eq_map_of_ok (fun field part hpart => ?_) hlists
    cases href : field.reference with
    | none =>
      simp only [href] at hpart
      rw [← Except.ok.inj hpart, cascadeValues, href]
      rfl
    | some reference =>
      simp only [href] at hpart
      split at hpart
      · rename_i hcascade
        exact cascadeParts_ok href hcascade hpart
      · rename_i hcascade
        rw [← Except.ok.inj hpart, cascadeValues, href]
        simp [hcascade]
  rw [hmap, List.flatMap_assoc, List.flatMap_def]

theorem endpointUuidKey_ok {endpointKey name : Text} (hcache : schema.cacheKey = none)
    (hendpoint : schema.endpointKey = some endpointKey)
    (h : endpointUuidKey p schema parent item endpointKey = .ok (some name)) :
    name = concat colon (nameParts p schema parent entity item) := by
  unfold endpointUuidKey at h
  simp only [nameParts, nameValues, hcache, hendpoint]
  cases hget : item.get endpointKey with
  | none => simp [hget] at h
  | some value =>
    cases hfield : schema.field endpointKey with
    | none => simp [hget, hfield] at h
    | some field =>
      cases value with
      | null =>
        simp only [hget, hfield] at h
        split at h
        · cases h
        · cases h
      | foreign fk =>
        simp only [hget, hfield] at h
        split at h
        · cases h
        · cases h
      | text key =>
        simp only [hget, hfield] at h
        split at h
        · rename_i hunique
          obtain rfl : key = name := Option.some.inj (Except.ok.inj h)
          simp [hunique, printed, concat]
        · rename_i hunique
          obtain ⟨parts, hparts, h⟩ := MapM.bind_ok h
          rw [← Option.some.inj (Except.ok.inj h), endpointKeyParts_ok hparts]
          simp only [hunique, printed, List.flatMap_cons, List.cons_append, List.nil_append]
          split
          · simp
          · simp [printed]

theorem endpointUuidKey_text {endpointKey name : Text}
    (h : endpointUuidKey p schema parent item endpointKey = .ok (some name)) :
    ∃ key, item.get endpointKey = some (.text key) := by
  unfold endpointUuidKey at h
  split at h
  · cases h
  · cases h
  · rename_i key field hget hfield
    exact ⟨key, hget⟩
  · split at h
    · cases h
    · cases h

theorem getKeyForUuidGen_name {pkName name : Text}
    (h : getKeyForUuidGen p schema parent entity item = .ok (some (pkName, name))) :
    name = concat colon (nameParts p schema parent entity item)
      ∧ nameParts p schema parent entity item ≠ [] := by
  unfold getKeyForUuidGen at h
  split at h
  · split at h
    · cases h
    · split at h
      · rename_i cacheKey _ hcache
        obtain ⟨key, hkey, h⟩ := MapM.bind_ok h
        obtain ⟨name', rfl, heq⟩ := Option.map_eq_some_iff.mp (Except.ok.inj h)
        obtain rfl : name' = name := congrArg Prod.snd heq
        obtain ⟨parts, hparts, hkey⟩ := MapM.bind_ok hkey
        obtain ⟨parts, rfl, rfl⟩ := Option.map_eq_some_iff.mp (Except.ok.inj hkey)
        simp [nameParts, nameValues, hcache, cacheKeyParts_ok hparts, printed,
          List.flatMap_map]
      · rename_i endpointKey hcache hendpoint
        obtain ⟨key, hkey, h⟩ := MapM.bind_ok h
        obtain ⟨name', rfl, heq⟩ := Option.map_eq_some_iff.mp (Except.ok.inj h)
        obtain rfl : name' = name := congrArg Prod.snd heq
        refine ⟨endpointUuidKey_ok hcache hendpoint hkey, ?_⟩
        obtain ⟨key, hget⟩ := endpointUuidKey_text hkey
        simp [nameParts, nameValues, hcache, hendpoint, hget, printed]
      · cases h
  · cases h

end Names

/-! ## Items that differ -/

/-- The cache key fields of two items of a type are the same, or, for a
type without a cache key, the endpoint key, the parent and the workspace. -/
def SameFields (p : Params) (schema : EntitySchema) (entity : Text) (parent : Option Parent)
    (item : Entity) (parent' : Option Parent) (item' : Entity) : Prop :=
  match schema.cacheKey, schema.endpointKey with
  | some cacheKey, _ => ∀ k ∈ cacheKey,
      cacheKeyValue p parent entity item k = cacheKeyValue p parent' entity item' k
  | none, some endpointKey =>
    item.get endpointKey = item'.get endpointKey
      ∧ parent.map (fun parent => (parent.entity, parentKey p parent))
        = parent'.map (fun parent => (parent.entity, parentKey p parent))
      ∧ wsIdFor item = wsIdFor item'
  | none, none => True

/-- Values that give one name: the same up to null and tables, which add
nothing, absent values, which are as empty ones, and colons inside values. -/
inductive Alike : List (Option FieldValue) → List (Option FieldValue) → Prop where
  | nil : Alike [] []
  | same {v w : Option FieldValue} {vs ws : List (Option FieldValue)}
      (hsame : printed v = printed w) (h : Alike vs ws) : Alike (v :: vs) (w :: ws)
  | silentLeft {v : Option FieldValue} {vs ws : List (Option FieldValue)}
      (hsilent : printed v = []) (h : Alike vs ws) : Alike (v :: vs) ws
  | silentRight {w : Option FieldValue} {vs ws : List (Option FieldValue)}
      (hsilent : printed w = []) (h : Alike vs ws) : Alike vs (w :: ws)
  | colonLeft {s t : Text} {w : Option FieldValue} {vs ws : List (Option FieldValue)}
      (hfront : printed w = [s]) (h : Alike (some (.text t) :: vs) ws) :
      Alike (some (.text (s ++ colon :: t)) :: vs) (w :: ws)
  | colonRight {s t : Text} {v : Option FieldValue} {vs ws : List (Option FieldValue)}
      (hfront : printed v = [s]) (h : Alike vs (some (.text t) :: ws)) :
      Alike (v :: vs) (some (.text (s ++ colon :: t)) :: ws)

/-- A value that is absent, or a text that is not empty and has no colon. -/
def Plain : Option FieldValue → Prop
  | none => True
  | some (.text s) => s ≠ [] ∧ colon ∉ s
  | some _ => False

instance : DecidablePred Plain
  | none => inferInstanceAs (Decidable True)
  | some (.text s) => inferInstanceAs (Decidable (s ≠ [] ∧ colon ∉ s))
  | some .null => inferInstanceAs (Decidable False)
  | some (.foreign _) => inferInstanceAs (Decidable False)

section Alike

/-- What values add to a name, with a colon after each part. -/
def written (values : List (Option FieldValue)) : Text :=
  (values.flatMap printed).flatMap fun part => part ++ [colon]

theorem written_cons (v : Option FieldValue) (vs : List (Option FieldValue)) :
    written (v :: vs) = ((printed v).flatMap fun part => part ++ [colon]) ++ written vs := by
  rw [written, List.flatMap_cons, List.flatMap_append, written]

theorem written_text {v : Option FieldValue} {s : Text} (hv : printed v = [s])
    (vs : List (Option FieldValue)) : written (v :: vs) = s ++ colon :: written vs := by
  simp [written_cons, hv]

theorem written_silent {v : Option FieldValue} (hv : printed v = [])
    (vs : List (Option FieldValue)) : written (v :: vs) = written vs := by
  simp [written_cons, hv]

theorem printed_cases (v : Option FieldValue) : printed v = [] ∨ ∃ s, printed v = [s] := by
  unfold printed
  split
  · exact .inr ⟨_, rfl⟩
  · exact .inr ⟨_, rfl⟩
  · exact .inl rfl

theorem eq_text_of_printed {v : Option FieldValue} {s t : Text}
    (hv : printed v = [s ++ colon :: t]) : v = some (.text (s ++ colon :: t)) := by
  unfold printed at hv
  split at hv
  · simp at hv
  · rw [List.cons.inj hv |>.1]
  · cases hv

theorem Alike.written_eq {vs ws : List (Option FieldValue)} (h : Alike vs ws) :
    written vs = written ws := by
  induction h with
  | nil => rfl
  | same hsame _ ih => rw [written_cons, written_cons, hsame, ih]
  | silentLeft hsilent _ ih => rw [written_silent hsilent, ih]
  | silentRight hsilent _ ih => rw [written_silent hsilent, ih]
  | colonLeft hfront _ ih =>
    rw [written_text hfront, ← ih, written_text rfl, written_text rfl]
    simp
  | colonRight hfront _ ih =>
    rw [written_text hfront, ih, written_text rfl, written_text rfl]
    simp

/-- The values are compared from the left, those that add nothing passed
over; of two that differ, one goes on with a colon. -/
theorem alike_of_written (n : Nat) : ∀ vs ws : List (Option FieldValue),
    vs.length + ws.length = n → written vs = written ws → Alike vs ws := by
  induction n using Nat.strongRecOn with
  | ind n ih =>
    intro vs ws hn h
    match vs, ws with
    | [], [] => exact .nil
    | [], w :: ws =>
      rcases printed_cases w with hw | ⟨s, hw⟩
      · rw [written_silent hw] at h
        exact .silentRight hw (ih _ (by simp [← hn]) [] ws rfl h)
      · rw [written_text hw] at h
        exact absurd h.symm (by simp [written])
    | v :: vs, [] =>
      rcases printed_cases v with hv | ⟨s, hv⟩
      · rw [written_silent hv] at h
        exact .silentLeft hv (ih _ (by simp [← hn]) vs [] rfl h)
      · rw [written_text hv] at h
        exact absurd h (by simp [written])
    | v :: vs, w :: ws =>
      simp only [List.length_cons] at hn
      rcases printed_cases v with hv | ⟨s, hv⟩
      · rw [written_silent hv] at h
        exact .silentLeft hv (ih _ (by rw [List.length_cons]; omega) vs (w :: ws) rfl h)
      rcases printed_cases w with hw | ⟨s', hw⟩
      · rw [written_silent hw] at h
        exact .silentRight hw (ih _ (by rw [List.length_cons]; omega) (v :: vs) ws rfl h)
      rw [written_text hv, written_text hw] at h
      rcases List.append_eq_append_iff.mp h with ⟨u, hs, hrest⟩ | ⟨u, hs, hrest⟩
      · cases u with
        | nil =>
          rw [List.append_nil] at hs
          have htail : written vs = written ws := (List.cons.inj hrest).2
          exact .same (by rw [hv, hw, hs]) (ih _ (by omega) vs ws rfl htail)
        | cons d u =>
          obtain ⟨rfl, htail⟩ := List.cons.inj hrest
          rw [eq_text_of_printed (hw.trans (by rw [hs]))]
          exact .colonRight hv (ih (n - 1) (by omega) vs (some (.text u) :: ws)
            (by simp only [List.length_cons]; omega) (htail.trans (written_text rfl ws).symm))
      · cases u with
        | nil =>
          rw [List.append_nil] at hs
          have htail : written vs = written ws := (List.cons.inj hrest).2.symm
          exact .same (by rw [hv, hw, hs]) (ih _ (by omega) vs ws rfl htail)
        | cons d u =>
          obtain ⟨rfl, htail⟩ := List.cons.inj hrest
          rw [eq_text_of_printed (hv.trans (by rw [hs]))]
          exact .colonLeft hw (ih (n - 1) (by omega) (some (.text u) :: vs) ws
            (by simp only [List.length_cons]; omega) ((written_text rfl vs).trans htail.symm))

theorem Plain.cases {v : Option FieldValue} (hv : Plain v) :
    v = none ∨ ∃ s, v = some (.text s) ∧ s ≠ [] ∧ colon ∉ s := by
  unfold Plain at hv
  split at hv
  · exact .inl rfl
  · exact .inr ⟨_, rfl, hv⟩
  · exact hv.elim

theorem Plain.printed_injective {v w : Option FieldValue} (hv : Plain v) (hw : Plain w)
    (h : printed v = printed w) : v = w := by
  rcases hv.cases with rfl | ⟨s, rfl, hs, _⟩
  · rcases hw.cases with rfl | ⟨t, rfl, ht, _⟩
    · rfl
    · exact absurd (List.cons.inj h).1.symm ht
  · rcases hw.cases with rfl | ⟨t, rfl, ht, _⟩
    · exact absurd (List.cons.inj h).1 hs
    · rw [(List.cons.inj h).1]

theorem Plain.not_silent {v : Option FieldValue} (hv : Plain v) : printed v ≠ [] := by
  rcases hv.cases with rfl | ⟨s, rfl, _⟩
  · simp [printed]
  · simp [printed]

theorem not_plain_colon {s t : Text} : ¬ Plain (some (.text (s ++ colon :: t))) := by
  simp [Plain]

theorem Alike.eq_of_plain {vs ws : List (Option FieldValue)} (h : Alike vs ws)
    (hvs : ∀ v ∈ vs, Plain v) (hws : ∀ w ∈ ws, Plain w) : vs = ws := by
  induction h with
  | nil => rfl
  | same hsame _ ih =>
    have heq := (hvs _ List.mem_cons_self).printed_injective (hws _ List.mem_cons_self) hsame
    rw [heq, ih (fun v hv => hvs v (List.mem_cons_of_mem _ hv))
      fun w hw => hws w (List.mem_cons_of_mem _ hw)]
  | silentLeft hsilent _ _ => exact absurd hsilent (hvs _ List.mem_cons_self).not_silent
  | silentRight hsilent _ _ => exact absurd hsilent (hws _ List.mem_cons_self).not_silent
  | colonLeft _ _ _ => exact absurd (hvs _ List.mem_cons_self) not_plain_colon
  | colonRight _ _ _ => exact absurd (hws _ List.mem_cons_self) not_plain_colon

end Alike

section Names

variable {p : Params} {schema : EntitySchema} {entity : Text} {parent parent' : Option Parent}
  {item item' : Entity} {pkName pkName' name name' : Text}

theorem concat_append {sep : Byte} {parts : List Text} (h : parts ≠ []) :
    concat sep parts ++ [sep] = parts.flatMap fun part => part ++ [sep] := by
  induction parts with
  | nil => exact absurd rfl h
  | cons part parts ih =>
    cases parts with
    | nil => simp [concat]
    | cons part' parts =>
      rw [concat_cons_cons, List.flatMap_cons, ← ih (List.cons_ne_nil _ _)]
      simp

theorem name_eq_iff
    (h : getKeyForUuidGen p schema parent entity item = .ok (some (pkName, name)))
    (h' : getKeyForUuidGen p schema parent' entity item' = .ok (some (pkName', name'))) :
    name = name'
      ↔ Alike (nameValues p schema parent entity item)
          (nameValues p schema parent' entity item') := by
  obtain ⟨rfl, hne⟩ := getKeyForUuidGen_name h
  obtain ⟨rfl, hne'⟩ := getKeyForUuidGen_name h'
  rw [← List.append_left_inj [colon], concat_append hne, concat_append hne']
  exact ⟨alike_of_written _ _ _ rfl, Alike.written_eq⟩

theorem sameFields_of_nameValues {cacheKey : List Text} (hcache : schema.cacheKey = some cacheKey)
    (h : nameValues p schema parent entity item = nameValues p schema parent' entity item') :
    SameFields p schema entity parent item parent' item' := by
  unfold nameValues at h
  unfold SameFields
  simp only [hcache] at h ⊢
  exact List.map_inj_left.mp (List.cons.inj (List.cons.inj h).2).2

end Names

/-! ## Items and the entities around them -/

mutual

/-- Each item with the entities around it, innermost first: what there is
of an item whatever the order of the file. -/
def chains (p : Params) (above : List Parent) : Input → List (List Parent)
  | [] => []
  | (entity, items) :: rest =>
    (if isField p above.head? entity then [] else chainsItems p above entity items)
      ++ chains p above rest

def chainsItems (p : Params) (above : List Parent) (entity : Text) : List Item → List (List Parent)
  | [] => []
  | item :: rest => chainsItem p above entity item ++ chainsItems p above entity rest

def chainsItem (p : Params) (above : List Parent) (entity : Text) : Item → List (List Parent)
  | .mk own nested => chains p (⟨entity, own⟩ :: above) nested ++ [⟨entity, own⟩ :: above]

end

/-- An item with its id, from the entities around it. -/
def withId (p : Params) : List Parent → Except Failure (Option Parent)
  | [] => .ok none
  | ⟨entity, own⟩ :: above => do
    let parent ← withId p above
    let own ← generateId p parent entity own
    .ok (some ⟨entity, own⟩)

/-- An item has the id that the entities around it give. -/
def HasId (p : Params) (chain : List Parent) (visit : Visit) : Prop :=
  withId p chain = .ok (some ⟨visit.entity, visit.own⟩)

mutual

theorem hasId_generateIds {p : Params} {above : List Parent} {parent : Option Parent}
    {parentIdx : Nat} (habove : withId p above = .ok parent)
    (hentity : above.head?.map Parent.entity = parent.map Parent.entity) :
    {input done : Input} → generateIds p parent input = .ok done →
      List.Forall₂ (HasId p) (chains p above input) (visits p parent parentIdx done)
  | [], done, h => by
    obtain rfl := Except.ok.inj h
    exact .nil
  | (entity, items) :: rest, done, h => by
    rw [generateIds] at h
    obtain ⟨items', hitems, h⟩ := MapM.bind_ok h
    obtain ⟨rest', hrest, h⟩ := MapM.bind_ok h
    obtain rfl := Except.ok.inj h
    rw [chains, visits, isField_congr p hentity]
    refine List.rel_append ?_ (hasId_generateIds habove hentity hrest)
    split at hitems
    · rename_i hfield
      rw [if_pos hfield, if_pos hfield]
      exact .nil
    · rename_i hfield
      rw [if_neg hfield, if_neg hfield]
      exact hasId_generateIdsItems habove hitems

theorem hasId_generateIdsItems {p : Params} {above : List Parent} {parent : Option Parent}
    {parentIdx i : Nat} {entity : Text} (habove : withId p above = .ok parent) :
    {items done : List Item} → generateIdsItems p parent entity items = .ok done →
      List.Forall₂ (HasId p) (chainsItems p above entity items)
        (visitsItems p parent parentIdx entity i done)
  | [], done, h => by
    obtain rfl := Except.ok.inj h
    exact .nil
  | item :: rest, done, h => by
    rw [generateIdsItems] at h
    obtain ⟨item', hitem, h⟩ := MapM.bind_ok h
    obtain ⟨rest', hrest, h⟩ := MapM.bind_ok h
    obtain rfl := Except.ok.inj h
    rw [chainsItems, visitsItems]
    exact List.rel_append (hasId_generateIdsItem habove hitem)
      (hasId_generateIdsItems habove hrest)

theorem hasId_generateIdsItem {p : Params} {above : List Parent} {parent : Option Parent}
    {parentIdx i : Nat} {entity : Text} (habove : withId p above = .ok parent) :
    {item done : Item} → generateIdsItem p parent entity item = .ok done →
      List.Forall₂ (HasId p) (chainsItem p above entity item)
        (visitsItem p parent parentIdx entity i done)
  | .mk own nested, done, h => by
    rw [generateIdsItem] at h
    obtain ⟨own', hown, h⟩ := MapM.bind_ok h
    obtain ⟨nested', hnested, h⟩ := MapM.bind_ok h
    obtain rfl := Except.ok.inj h
    have hid : withId p (⟨entity, own⟩ :: above) = .ok (some ⟨entity, own'⟩) := by
      simp [withId, habove, hown, bind, Except.bind]
    have hlast : HasId p (⟨entity, own⟩ :: above) ⟨parent, parentIdx, entity, i, own'⟩ := hid
    rw [chainsItem, visitsItem]
    exact List.rel_append (hasId_generateIds hid rfl hnested) (.cons hlast .nil)

end

/-- Different items get different ids exactly when the values in their names
are not alike, so where no value of a cache key is null, a table, empty or
has a colon; and an id depends on the item and the entities around it
only. -/
theorem generated_ids_differ_iff (p : Params)
    (hinj : ∀ entity, Function.Injective (p.generateUuid entity)) :
    (∀ (schema : EntitySchema) (entity : Text) (parent parent' : Option Parent)
        (item item' : Entity) (pkName pkName' name name' : Text),
      getKeyForUuidGen p schema parent entity item = .ok (some (pkName, name)) →
      getKeyForUuidGen p schema parent' entity item' = .ok (some (pkName', name')) →
      ((¬ SameFields p schema entity parent item parent' item' →
          name ≠ name' ∧ p.generateUuid schema.name name ≠ p.generateUuid schema.name name')
        ↔ (¬ SameFields p schema entity parent item parent' item' →
          ¬ Alike (nameValues p schema parent entity item)
              (nameValues p schema parent' entity item')))
      ∧ (schema.cacheKey.isSome →
          (∀ value ∈ nameValues p schema parent entity item, Plain value) →
          (∀ value ∈ nameValues p schema parent' entity item', Plain value) →
          ¬ SameFields p schema entity parent item parent' item' →
          name ≠ name' ∧ p.generateUuid schema.name name ≠ p.generateUuid schema.name name'))
    ∧ ∀ input generated, generateIds p none input = .ok generated →
        List.Forall₂ (HasId p) (chains p [] input) (declared p generated) := by
  constructor
  · intro schema entity parent parent' item item' pkName pkName' name name' h h'
    have hname := name_eq_iff h h'
    have hid : p.generateUuid schema.name name = p.generateUuid schema.name name' ↔ name = name' :=
      (hinj schema.name).eq_iff
    rw [ne_eq, ne_eq, hid, and_self, hname]
    refine ⟨Iff.rfl, fun hcache hplain hplain' hdiffer halike => hdiffer ?_⟩
    obtain ⟨cacheKey, hcache⟩ := Option.isSome_iff_exists.mp hcache
    exact sameFields_of_nameValues hcache (halike.eq_of_plain hplain hplain')
  · intro input generated h
    exact hasId_generateIds rfl rfl h

/-- A plugin of the service, or of the route, `a`. -/
def servicePlugin : Entity :=
  sampleEntity [("name", .text (ofText "cors")), ("route", .null),
    ("service", .text (ofText "a"))]

def routePlugin : Entity :=
  sampleEntity [("name", .text (ofText "cors")), ("route", .text (ofText "a")),
    ("service", .null)]

theorem generateUuid_injective (entity : Text) :
    Function.Injective (sampleParams.generateUuid entity) := by
  intro name name' h
  exact (List.cons.inj (List.append_cancel_left h)).2

/-- A plugin of the service `a` and one of all services have ids of their
own, with `null` for the route or without a route. -/
theorem plugins_of_services_differ :
    sampleParams.generateUuid pluginSchema.name (ofText "plugins:*:cors:a:")
        ≠ sampleParams.generateUuid pluginSchema.name (ofText "plugins:*:cors::")
    ∧ sampleParams.generateUuid pluginSchema.name (ofText "plugins:*:cors::a:")
        ≠ sampleParams.generateUuid pluginSchema.name (ofText "plugins:*:cors:::") := by
  have hids := (generated_ids_differ_iff sampleParams generateUuid_injective).1 pluginSchema
    pluginSchema.name none none
  constructor
  · have hdiffer := (hids servicePlugin
      (sampleEntity [("name", .text (ofText "cors")), ("route", .null)]) (ofText "id") (ofText "id")
      (ofText "plugins:*:cors:a:") (ofText "plugins:*:cors::") (by decide +kernel)
      (by decide +kernel)).1
    refine (hdiffer.mpr (fun _ halike => absurd halike.written_eq (by decide +kernel))
      fun hsame => ?_).2
    have hservice := hsame (ofText "service") (by decide +kernel)
    revert hservice
    decide +kernel
  · have hdiffer := (hids
      (sampleEntity [("name", .text (ofText "cors")), ("service", .text (ofText "a"))])
      (sampleEntity [("name", .text (ofText "cors"))]) (ofText "id") (ofText "id")
      (ofText "plugins:*:cors::a:") (ofText "plugins:*:cors:::") (by decide +kernel)
      (by decide +kernel)).2
    refine (hdiffer (by decide +kernel) ?_ ?_ fun hsame => ?_).2
    · decide +kernel
    · decide +kernel
    · have hservice := hsame (ofText "service") (by decide +kernel)
      revert hservice
      decide +kernel

/-- A plugin of a service and one of a route of the same name: with `null`
for the other field their names are the same. -/
theorem service_and_route_plugin_collide :
    getKeyForUuidGen sampleParams pluginSchema none pluginSchema.name servicePlugin
        = .ok (some (ofText "id", ofText "plugins:*:cors:a:"))
    ∧ getKeyForUuidGen sampleParams pluginSchema none pluginSchema.name routePlugin
        = .ok (some (ofText "id", ofText "plugins:*:cors:a:"))
    ∧ ¬ SameFields sampleParams pluginSchema pluginSchema.name none servicePlugin none
        routePlugin := by
  refine ⟨by decide +kernel, by decide +kernel, fun hsame => ?_⟩
  have hservice := hsame (ofText "service") (by decide +kernel)
  revert hservice
  decide +kernel

end KongGateway.Kong.Db.DeclarativeConfig

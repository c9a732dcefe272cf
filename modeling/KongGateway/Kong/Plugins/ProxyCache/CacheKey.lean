import KongGateway.Lib.Joined
import KongGateway.Lib.MapM
import KongGateway.Kong.Plugins.ProxyCache

/-!
# CacheKey — requests that share a cached response

The key joins its parts with `|`, `:`, `=` and `,` and does not escape
these in names and values. Two requests have the same key exactly when
they are the same as far as they are read, or a separator shifts from one
part of the one into a part of the other.
-/

namespace KongGateway.Kong.Plugins.ProxyCache

open Bytes Joined

/-! ## Sorted texts -/

theorem sortTexts_perm (texts : List Text) : (sortTexts texts).Perm texts :=
  List.mergeSort_perm texts _

theorem sortTexts_pairwise (texts : List Text) : (sortTexts texts).Pairwise (· ≤ ·) :=
  List.pairwise_mergeSort' (fun a b : Text => a ≤ b) texts

theorem eq_of_sorted_perm {texts texts' : List Text} (h : texts.Pairwise (· ≤ ·))
    (h' : texts'.Pairwise (· ≤ ·)) (hperm : texts.Perm texts') : texts = texts' :=
  hperm.eq_of_pairwise (fun _ _ _ _ hab hba => le_antisymm hab hba) h h'

theorem sortTexts_of_perm {texts texts' : List Text} (hperm : texts.Perm texts') :
    sortTexts texts = sortTexts texts' :=
  eq_of_sorted_perm (sortTexts_pairwise texts) (sortTexts_pairwise texts')
    (((sortTexts_perm texts).trans hperm).trans (sortTexts_perm texts').symm)

/-! ## The row of a request -/

/-- What a field is printed with: its name alone, or its values in order. -/
def Arg.printed : Arg → Option (List Text)
  | .flag => none
  | .text value => some [value]
  | .table values => some (sortTexts (values.filterMap id))

/-- Fields by their names, with what they are printed with. -/
abbrev Printed := List (Text × Option (List Text))

def valueRow (last : Byte) : List Text → Row Byte
  | [] => [([], last)]
  | [value] => [(value, last)]
  | value :: values => (value, 44) :: valueRow last values

def fieldRow (last : Byte) (field : Text × Option (List Text)) : Row Byte :=
  match field.2 with
  | none => [(field.1, last)]
  | some values => (field.1, 61) :: valueRow last values

def fieldsRow : Printed → Row Byte
  | [] => [([], 124)]
  | [field] => fieldRow 124 field
  | field :: fields => fieldRow 58 field ++ fieldsRow fields

/-- The parameters of a request that its response varies on. -/
def Request.varyingParams (conf : Config) (request : Request) : List (Text × Arg) :=
  present (lookup (argsTable request.query)) (paramFields (argsTable request.query) conf)

/-- The headers of a request that its response varies on. -/
def Request.varyingHeaders (conf : Config) (request : Request) : List (Text × Arg) :=
  present (fun field => argOf (headerValues request.headers field)) (conf.varyHeaders.getD [])

def printAll (fields : List (Text × Arg)) : Printed :=
  fields.map fun field => (field.1, field.2.printed)

/-- The parts of a request, each with the separator that follows it in the
key; at the end of the key none does. -/
def Request.row (conf : Config) (request : Request) : Row Byte :=
  (request.consumerId.map fun id => (id, 58)).toList
    ++ [(request.routeId, 124), (request.method, 124), (request.uri conf, 124)]
    ++ fieldsRow (printAll (request.varyingParams conf))
    ++ fieldsRow (printAll (request.varyingHeaders conf))

/-- A field whose table has `true` in it. -/
def Raises (fields : List (Text × Arg)) : Prop :=
  ∃ field ∈ fields, ∃ values, field.2 = .table values ∧ none ∈ values

/-! ## The text of a key -/

theorem join_valueRow (last : Byte) (values : List Text) :
    join (valueRow last values) = [44].intercalate values ++ [last] := by
  induction values with
  | nil => rfl
  | cons value values ih =>
    cases values with
    | nil => simp [valueRow, join]
    | cons other values =>
      rw [valueRow, join_cons, ih, List.intercalate_cons_cons]
      · simp
      · exact List.cons_ne_nil other values

theorem fieldKey_eq {field : Text × Arg} (h : ∀ values, field.2 = .table values → none ∉ values)
    (last : Byte) : ∃ key, fieldKey field.1 field.2 = .ok key
      ∧ join (fieldRow last (field.1, field.2.printed)) = key ++ [last] := by
  obtain ⟨name, arg⟩ := field
  cases arg with
  | flag => exact ⟨name, rfl, by simp [fieldRow, Arg.printed, join]⟩
  | text value =>
    exact ⟨name ++ [61] ++ value, rfl, by simp [fieldRow, Arg.printed, valueRow, join]⟩
  | table values =>
    refine ⟨name ++ [61] ++ [44].intercalate (sortTexts (values.filterMap id)), ?_, ?_⟩
    · rw [fieldKey, concatSorted, if_neg (h values rfl)]
      rfl
    · simp [fieldRow, Arg.printed, join_cons, join_valueRow]

theorem join_fieldsRow {fields : List (Text × Arg)} (h : ¬ Raises fields) :
    ∃ keys, fields.mapM (fun field => fieldKey field.1 field.2) = .ok keys
      ∧ join (fieldsRow (printAll fields)) = [58].intercalate keys ++ [124] := by
  induction fields with
  | nil => exact ⟨[], rfl, rfl⟩
  | cons field fields ih =>
    have htable : ∀ values, field.2 = .table values → none ∉ values := fun values hvalues hnone =>
      h ⟨field, List.mem_cons_self, values, hvalues, hnone⟩
    obtain ⟨keys, hkeys, hjoin⟩ := ih fun ⟨other, hother, hvalues⟩ =>
      h ⟨other, List.mem_cons_of_mem field hother, hvalues⟩
    cases fields with
    | nil =>
      obtain ⟨key, hkey, hrow⟩ := fieldKey_eq htable 124
      refine ⟨[key], ?_, ?_⟩
      · rw [List.mapM_cons, hkey]
        rfl
      · rw [List.intercalate_singleton, ← hrow]
        rfl
    | cons other fields =>
      obtain ⟨key, hkey, hrow⟩ := fieldKey_eq htable 58
      refine ⟨key :: keys, ?_, ?_⟩
      · rw [List.mapM_cons, hkey, hkeys]
        rfl
      · obtain ⟨key', keys', -, -, rfl⟩ := MapM.cons_ok hkeys
        have hcons : fieldsRow (printAll (field :: other :: fields))
            = fieldRow 58 (field.1, field.2.printed) ++ fieldsRow (printAll (other :: fields)) := rfl
        rw [hcons, join_append, hrow, hjoin, List.intercalate_cons_cons]
        simp

theorem fieldKey_raises {field : Text × Arg} {values : List Value} (h : field.2 = .table values)
    (hnone : none ∈ values) : ∃ err, fieldKey field.1 field.2 = .error err := by
  rw [h, fieldKey, concatSorted, if_pos hnone]
  exact ⟨_, rfl⟩

theorem mapM_raises {fields : List (Text × Arg)} (h : Raises fields) :
    ∃ err, fields.mapM (fun field => fieldKey field.1 field.2) = .error err := by
  obtain ⟨field, hfield, values, hvalues, hnone⟩ := h
  cases hkeys : fields.mapM (fun field => fieldKey field.1 field.2) with
  | error err => exact ⟨err, rfl⟩
  | ok keys =>
    obtain ⟨err, herr⟩ := fieldKey_raises hvalues hnone
    obtain ⟨key, -, hkey⟩ := MapM.ok_of_mem hkeys hfield
    rw [herr] at hkey
    cases hkey

/-- A request that has no key. -/
def Request.Raises (conf : Config) (request : Request) : Prop :=
  ProxyCache.Raises (request.varyingParams conf) ∨ ProxyCache.Raises (request.varyingHeaders conf)

/-- The text of a key. -/
def Request.keyText (conf : Config) (request : Request) : Text := (join (request.row conf)).dropLast

theorem accessKey_eq (sha256Hex : Text → Text) {limits : Limits} {conf : Config} {request : Request}
    (h : ¬ (request.read limits).Raises conf) :
    accessKey sha256Hex limits conf request
        = .ok (sha256Hex ((request.read limits).keyText conf))
      ∧ join ((request.read limits).row conf) = (request.read limits).keyText conf ++ [124] := by
  obtain ⟨hparams, hheaders⟩ := not_or.mp h
  obtain ⟨params, hp, hprow⟩ := join_fieldsRow hparams
  obtain ⟨headers, hh, hhrow⟩ := join_fieldsRow hheaders
  have hp' : paramsKey (argsTable (request.read limits).query) conf
      = .ok ([58].intercalate params) := by
    unfold paramsKey generateKeyFrom
    rw [← Request.varyingParams, hp]
    rfl
  have hh' : headersKey (fun field => argOf (headerValues (request.read limits).headers field)) conf
      = .ok ([58].intercalate headers) := by
    unfold headersKey generateKeyFrom
    rw [← Request.varyingHeaders, hh]
    rfl
  have htext : join ((request.read limits).row conf) = [124].intercalate
      [prefixUuid request.consumerId (some request.routeId), request.method, request.uri conf,
        [58].intercalate params, [58].intercalate headers] ++ [124] := by
    unfold Request.row
    rw [join_append, join_append, join_append, hprow, hhrow]
    cases hid : request.consumerId with
    | none => simp [join, prefixUuid, Request.read, Request.uri, hid]
    | some id => simp [join, prefixUuid, Request.read, Request.uri, hid]
  rw [Request.keyText, htext, List.dropLast_concat, accessKey, buildCacheKey, hp', hh']
  exact ⟨rfl, rfl⟩

theorem accessKey_raises (sha256Hex : Text → Text) {limits : Limits} {conf : Config}
    {request : Request} (h : (request.read limits).Raises conf) :
    ∃ err, accessKey sha256Hex limits conf request = .error err := by
  rw [accessKey, buildCacheKey]
  by_cases hparams : ProxyCache.Raises ((request.read limits).varyingParams conf)
  · obtain ⟨err, herr⟩ := mapM_raises hparams
    have hkey : paramsKey (argsTable (request.read limits).query) conf = .error err := by
      unfold paramsKey generateKeyFrom
      rw [← Request.varyingParams, herr]
      rfl
    rw [hkey]
    exact ⟨err, rfl⟩
  · obtain ⟨params, hp, -⟩ := join_fieldsRow hparams
    obtain ⟨err, herr⟩ := mapM_raises (h.resolve_left hparams)
    have hp' : paramsKey (argsTable (request.read limits).query) conf
        = .ok ([58].intercalate params) := by
      unfold paramsKey generateKeyFrom
      rw [← Request.varyingParams, hp]
      rfl
    have hkey : headersKey (fun field => argOf (headerValues (request.read limits).headers field))
        conf = .error err := by
      unfold headersKey generateKeyFrom
      rw [← Request.varyingHeaders, herr]
      rfl
    rw [hp', hkey]
    exact ⟨err, rfl⟩

/-! ## What a row tells -/

/-- Fields with names, and with values where they are printed with any. -/
def Readable (fields : Printed) : Prop :=
  ∀ field ∈ fields, field.1 ≠ [] ∧ field.2 ≠ some []

theorem valueRow_inj {last last' : Byte} (hlast : last ≠ 44) (hlast' : last' ≠ 44)
    {values values' : List Text} (hne : values ≠ []) (hne' : values' ≠ []) {row row' : Row Byte}
    (h : valueRow last values ++ row = valueRow last' values' ++ row') :
    values = values' ∧ last = last' ∧ row = row' := by
  induction values generalizing values' with
  | nil => exact absurd rfl hne
  | cons value values ih =>
    match values, values' with
    | _, [] => exact absurd rfl hne'
    | [], [value'] =>
      simp only [valueRow, List.singleton_append, List.cons.injEq, Prod.mk.injEq] at h
      exact ⟨by rw [h.1.1], h.1.2, h.2⟩
    | [], value' :: other' :: values' =>
      simp only [valueRow, List.cons_append, List.cons.injEq, Prod.mk.injEq] at h
      exact absurd h.1.2 hlast
    | other :: values, [value'] =>
      simp only [valueRow, List.cons_append, List.cons.injEq, Prod.mk.injEq] at h
      exact absurd h.1.2.symm hlast'
    | other :: values, value' :: other' :: values' =>
      simp only [valueRow, List.cons_append, List.cons.injEq, Prod.mk.injEq, and_true] at h
      obtain ⟨hvalues, hrest⟩ := ih (List.cons_ne_nil _ _) (List.cons_ne_nil other' values') h.2
      exact ⟨by rw [h.1, hvalues], hrest⟩

theorem fieldRow_inj {last last' : Byte} (hlast : last = 58 ∨ last = 124)
    (hlast' : last' = 58 ∨ last' = 124) {field field' : Text × Option (List Text)}
    (hne : field.2 ≠ some []) (hne' : field'.2 ≠ some []) {row row' : Row Byte}
    (h : fieldRow last field ++ row = fieldRow last' field' ++ row') :
    field = field' ∧ last = last' ∧ row = row' := by
  have hsep : ∀ {c : Byte}, c = 58 ∨ c = 124 → c ≠ 44 ∧ c ≠ 61 := by
    rintro c (rfl | rfl) <;> decide
  obtain ⟨name, printed⟩ := field
  obtain ⟨name', printed'⟩ := field'
  cases printed with
  | none =>
    cases printed' with
    | none =>
      simp only [fieldRow, List.singleton_append, List.cons.injEq, Prod.mk.injEq] at h
      exact ⟨by rw [h.1.1], h.1.2, h.2⟩
    | some values' =>
      simp only [fieldRow, List.cons_append, List.cons.injEq, Prod.mk.injEq] at h
      exact absurd h.1.2 (hsep hlast).2
  | some values =>
    cases printed' with
    | none =>
      simp only [fieldRow, List.cons_append, List.cons.injEq, Prod.mk.injEq] at h
      exact absurd h.1.2.symm (hsep hlast').2
    | some values' =>
      simp only [fieldRow, List.cons_append, List.cons.injEq, Prod.mk.injEq, and_true] at h
      obtain ⟨rfl, hrest⟩ := valueRow_inj (hsep hlast).1 (hsep hlast').1
        (fun heq => hne (congrArg some heq)) (fun heq => hne' (congrArg some heq)) h.2
      exact ⟨by rw [h.1], hrest⟩

theorem fieldsRow_cons_cons (field other : Text × Option (List Text)) (fields : Printed) :
    fieldsRow (field :: other :: fields) = fieldRow 58 field ++ fieldsRow (other :: fields) := rfl

theorem nil_row_ne {last : Byte} {field : Text × Option (List Text)} (hfield : field.1 ≠ [])
    {row row' : Row Byte} : fieldsRow [] ++ row ≠ fieldRow last field ++ row' := by
  intro h
  have hhead := congrArg (fun row : Row Byte => row.head?.map Prod.fst) h
  unfold fieldRow at hhead
  split at hhead <;> exact hfield (Option.some.inj hhead).symm

theorem fieldsRow_inj {fields fields' : Printed} (hfields : Readable fields)
    (hfields' : Readable fields') {row row' : Row Byte}
    (h : fieldsRow fields ++ row = fieldsRow fields' ++ row') : fields = fields' ∧ row = row' := by
  induction fields generalizing fields' with
  | nil =>
    match fields' with
    | [] => exact ⟨rfl, List.append_cancel_left h⟩
    | [field'] => exact absurd h (nil_row_ne (hfields' _ List.mem_cons_self).1)
    | field' :: other' :: fields' =>
      rw [fieldsRow_cons_cons, List.append_assoc] at h
      exact absurd h (nil_row_ne (hfields' _ List.mem_cons_self).1)
  | cons field fields ih =>
    have hfield := hfields field List.mem_cons_self
    match fields, fields' with
    | [], [] => exact absurd h.symm (nil_row_ne hfield.1)
    | other :: fields, [] =>
      rw [fieldsRow_cons_cons, List.append_assoc] at h
      exact absurd h.symm (nil_row_ne hfield.1)
    | [], [field'] =>
      have hfield' := hfields' field' List.mem_cons_self
      obtain ⟨rfl, -, hrest⟩ := fieldRow_inj (.inr rfl) (.inr rfl) hfield.2 hfield'.2 h
      exact ⟨rfl, hrest⟩
    | [], field' :: other' :: fields' =>
      have hfield' := hfields' field' List.mem_cons_self
      rw [fieldsRow_cons_cons, List.append_assoc] at h
      obtain ⟨-, hsep, -⟩ := fieldRow_inj (.inr rfl) (.inl rfl) hfield.2 hfield'.2 h
      exact absurd hsep (by decide)
    | other :: fields, [field'] =>
      have hfield' := hfields' field' List.mem_cons_self
      rw [fieldsRow_cons_cons, List.append_assoc] at h
      obtain ⟨-, hsep, -⟩ := fieldRow_inj (.inl rfl) (.inr rfl) hfield.2 hfield'.2 h
      exact absurd hsep (by decide)
    | other :: fields, field' :: other' :: fields' =>
      have hfield' := hfields' field' List.mem_cons_self
      rw [fieldsRow_cons_cons, fieldsRow_cons_cons, List.append_assoc, List.append_assoc] at h
      obtain ⟨rfl, -, hrest⟩ := fieldRow_inj (.inl rfl) (.inl rfl) hfield.2 hfield'.2 h
      obtain ⟨hfields, hrow⟩ := ih (fun f hf => hfields f (List.mem_cons_of_mem field hf))
        (fun f hf => hfields' f (List.mem_cons_of_mem field hf)) hrest
      exact ⟨by rw [hfields], hrow⟩

/-! ## Requests for one response -/

/-- A parameter that responses vary on. -/
def Config.VariesOnParam (conf : Config) (field : Text) : Prop :=
  match conf.varyQueryParams with
  | some (first :: fields) => field ∈ first :: fields
  | _ => True

/-- Two requests for one response. -/
structure SameRequest (conf : Config) (request request' : Request) : Prop where
  consumer : request.consumerId = request'.consumerId
  route : request.routeId = request'.routeId
  method : request.method = request'.method
  uri : request.uri conf = request'.uri conf
  params : ∀ field, conf.VariesOnParam field →
    (occurrences request.query field).Perm (occurrences request'.query field)
  headers : ∀ field ∈ conf.varyHeaders.getD [],
    (headerValues request.headers field).Perm (headerValues request'.headers field)

/-- The values of an argument. -/
def Arg.values : Arg → List Value
  | .flag => [none]
  | .text value => [some value]
  | .table values => values

/-- An argument that is no table with `true` in it. -/
def Arg.Sortable (arg : Arg) : Prop := ∀ values, arg = .table values → none ∉ values

theorem argOf_eq_some {values : List Value} {arg : Arg} (h : argOf values = some arg) :
    arg.values = values := by
  unfold argOf at h
  split at h <;> cases h <;> rfl

theorem argOf_isSome_iff {values : List Value} : (argOf values).isSome = true ↔ values ≠ [] := by
  unfold argOf
  split <;> simp_all

theorem map_some_filterMap {values : List Value} (h : none ∉ values) :
    (values.filterMap id).map some = values := by
  induction values with
  | nil => rfl
  | cons value values ih =>
    cases value with
    | none => exact absurd List.mem_cons_self h
    | some text => simpa using ih fun hmem => h (List.mem_cons_of_mem _ hmem)

theorem sorted_perm {values : List Value} (h : none ∉ values) :
    ((sortTexts (values.filterMap id)).map some).Perm values := by
  have hsort := (sortTexts_perm (values.filterMap id)).map some
  rwa [map_some_filterMap h] at hsort

theorem printed_perm {arg : Arg} (h : arg.Sortable) :
    ((arg.printed.map (·.map some)).getD [none]).Perm arg.values := by
  cases arg with
  | flag => exact .refl _
  | text value => exact .refl _
  | table values => exact sorted_perm (h values rfl)

theorem printed_eq {arg : Arg} (h : arg.Sortable) :
    arg.printed = if arg.values = [none] then none else some (sortTexts (arg.values.filterMap id)) := by
  cases arg with
  | flag => rfl
  | text value => simp [Arg.values, Arg.printed, sortTexts]
  | table values =>
    have hne : values ≠ [none] := by
      rintro rfl
      exact h _ rfl List.mem_cons_self
    rw [Arg.values, if_neg hne, Arg.printed]

/-- What an argument is printed with tells its values, but for their order. -/
theorem printed_eq_iff {arg arg' : Arg} (h : arg.Sortable) (h' : arg'.Sortable) :
    arg.printed = arg'.printed ↔ arg.values.Perm arg'.values := by
  constructor
  · intro heq
    have hperm := printed_perm h
    rw [heq] at hperm
    exact hperm.symm.trans (printed_perm h')
  · intro hperm
    have hflag : arg.values = [none] ↔ arg'.values = [none] :=
      ⟨fun heq => List.perm_singleton.mp (heq ▸ hperm.symm),
        fun heq => List.perm_singleton.mp (heq ▸ hperm)⟩
    rw [printed_eq h, printed_eq h', sortTexts_of_perm (hperm.filterMap id)]
    simp only [hflag]

theorem mem_printAll {args : Text → Option Arg} {fields : List Text}
    {entry : Text × Option (List Text)} :
    entry ∈ printAll (present args fields)
      ↔ ∃ arg, entry.1 ∈ fields ∧ args entry.1 = some arg ∧ arg.printed = entry.2 := by
  constructor
  · intro h
    obtain ⟨⟨field, arg⟩, hmem, rfl⟩ := List.mem_map.mp h
    obtain ⟨other, hother, hget⟩ := List.mem_filterMap.mp hmem
    obtain ⟨_, harg, hpair⟩ := Option.map_eq_some_iff.mp hget
    cases hpair
    exact ⟨arg, hother, harg, rfl⟩
  · rintro ⟨arg, hfield, harg, hprinted⟩
    exact List.mem_map.mpr ⟨(entry.1, arg),
      List.mem_filterMap.mpr ⟨entry.1, hfield, by rw [harg]; rfl⟩, by rw [hprinted]⟩

theorem sortable_of_not_raises {args : Text → Option Arg} {fields : List Text}
    (h : ¬ Raises (present args fields)) {field : Text} (hfield : field ∈ fields) {arg : Arg}
    (harg : args field = some arg) : arg.Sortable := by
  intro values hvalues hnone
  refine h ⟨(field, arg), List.mem_filterMap.mpr ⟨field, hfield, ?_⟩, values, hvalues, hnone⟩
  rw [harg]
  rfl

section Tables

variable {values values' : Text → List Value} {fields fields' : List Text}

theorem readable_printAll (hnamed : ∀ field, values field ≠ [] → field ≠ [])
    (h : ¬ Raises (present (fun field => argOf (values field)) fields)) :
    Readable (printAll (present (fun field => argOf (values field)) fields)) := by
  intro entry hentry
  obtain ⟨arg, hfield, harg, hprinted⟩ := mem_printAll.mp hentry
  have hvalues := argOf_eq_some harg
  have hne : values entry.1 ≠ [] := by
    intro hnil
    rw [hnil] at harg
    cases harg
  refine ⟨hnamed entry.1 hne, fun hnil => hne ?_⟩
  have hperm := printed_perm (sortable_of_not_raises h hfield harg)
  rw [hprinted, hnil, hvalues] at hperm
  exact List.nil_perm.mp hperm

theorem exists_printed {field : Text} (hne : values field ≠ []) (hfield : field ∈ fields) :
    ∃ arg, argOf (values field) = some arg
      ∧ (field, arg.printed) ∈ printAll (present (fun field => argOf (values field)) fields) := by
  obtain ⟨arg, harg⟩ := Option.isSome_iff_exists.mp (argOf_isSome_iff.mpr hne)
  exact ⟨arg, harg, mem_printAll.mpr ⟨arg, hfield, harg, rfl⟩⟩

theorem ne_nil_of_printed {field : Text} {printed : Option (List Text)}
    (h : (field, printed) ∈ printAll (present (fun field => argOf (values field)) fields)) :
    values field ≠ [] := by
  intro hnil
  obtain ⟨arg, -, harg, -⟩ := mem_printAll.mp h
  simp only [hnil] at harg
  cases harg

theorem values_perm (h : ¬ Raises (present (fun field => argOf (values field)) fields))
    (h' : ¬ Raises (present (fun field => argOf (values' field)) fields'))
    (heq : printAll (present (fun field => argOf (values field)) fields)
      = printAll (present (fun field => argOf (values' field)) fields'))
    {field : Text} (hfield : values field ≠ [] → field ∈ fields)
    (hfield' : values' field ≠ [] → field ∈ fields') : (values field).Perm (values' field) := by
  by_cases hne : values field = []
  · by_cases hne' : values' field = []
    · rw [hne, hne']
    · obtain ⟨arg', -, hmem⟩ := exists_printed hne' (hfield' hne')
      exact absurd hne (ne_nil_of_printed (heq ▸ hmem))
  · obtain ⟨arg, harg, hmem⟩ := exists_printed hne (hfield hne)
    rw [heq] at hmem
    obtain ⟨arg', hmem', harg', hprinted⟩ := mem_printAll.mp hmem
    rw [← argOf_eq_some harg, ← argOf_eq_some harg']
    exact (printed_eq_iff (sortable_of_not_raises h (hfield hne) harg)
      (sortable_of_not_raises h' hmem' harg')).mp hprinted.symm

theorem printAll_congr (h : ¬ Raises (present (fun field => argOf (values field)) fields))
    (h' : ¬ Raises (present (fun field => argOf (values' field)) fields))
    (hperm : ∀ field ∈ fields, (values field).Perm (values' field)) :
    printAll (present (fun field => argOf (values field)) fields)
      = printAll (present (fun field => argOf (values' field)) fields) := by
  unfold printAll present
  rw [List.map_filterMap, List.map_filterMap]
  refine List.filterMap_congr fun field hfield => ?_
  have hvalues := hperm field hfield
  cases harg : argOf (values field) with
  | none =>
    have hnil : values field = [] := by
      by_contra hne
      obtain ⟨arg, hsome, -⟩ := exists_printed hne hfield
      rw [harg] at hsome
      cases hsome
    rw [hnil] at hvalues
    simp [hnil, List.nil_perm.mp hvalues, argOf]
  | some arg =>
    have hne : values' field ≠ [] := by
      intro hnil
      rw [hnil, List.perm_nil] at hvalues
      rw [hvalues] at harg
      cases harg
    obtain ⟨arg', harg', -⟩ := exists_printed hne hfield
    have hprinted := (printed_eq_iff (sortable_of_not_raises h hfield harg)
      (sortable_of_not_raises h' hfield harg')).mpr
        (by rwa [argOf_eq_some harg, argOf_eq_some harg'])
    simp [harg, harg', hprinted]

end Tables

/-! ## The table of the query -/

theorem occurrences_ne_nil_iff {given : List Occurrence} {name : Text} :
    occurrences given name ≠ [] ↔ name ∈ given.map Occurrence.name := by
  simp [occurrences, List.filter_eq_nil_iff]

theorem table_names (args : Text → Option Arg) (names : List Text) :
    (names.filterMap fun name => (args name).map fun arg => (name, arg)).map Prod.fst
      = names.filter fun name => (args name).isSome := by
  induction names with
  | nil => rfl
  | cons name names ih =>
    cases harg : args name with
    | none => simp [harg, ih]
    | some arg => simp [harg, ih]

theorem lookup_table (args : Text → Option Arg) {names : List Text} {name : Text}
    (h : (args name).isSome → name ∈ names) :
    lookup (names.filterMap fun name => (args name).map fun arg => (name, arg)) name = args name := by
  unfold lookup
  induction names with
  | nil =>
    cases harg : args name with
    | none => rfl
    | some arg => exact absurd (h (by rw [harg]; rfl)) List.not_mem_nil
  | cons other names ih =>
    by_cases heq : name = other
    · subst heq
      cases harg : args name with
      | none =>
        rw [List.filterMap_cons_none (by rw [harg]; rfl), ih (by simp [harg]), harg]
      | some arg => simp [harg]
    · have hrest := ih fun hsome => (List.mem_cons.mp (h hsome)).resolve_left heq
      cases harg : args other with
      | none => rw [List.filterMap_cons_none (by rw [harg]; rfl), hrest]
      | some arg =>
        rw [List.filterMap_cons_some (by rw [harg]; rfl), List.lookup_cons,
          beq_false_of_ne heq]
        exact hrest

theorem lookup_argsTable (given : List Occurrence) :
    lookup (argsTable given) = fun field => argOf (occurrences given field) := by
  funext name
  refine lookup_table (fun name => argOf (occurrences given name)) fun hsome => ?_
  exact List.mem_dedup.mpr (occurrences_ne_nil_iff.mp (argOf_isSome_iff.mp hsome))

theorem mem_names_argsTable {given : List Occurrence} {name : Text} :
    name ∈ (argsTable given).map Prod.fst ↔ occurrences given name ≠ [] := by
  rw [argsTable, table_names, List.mem_filter, argOf_isSome_iff, List.mem_dedup,
    ← occurrences_ne_nil_iff, and_self]

theorem nodup_names_argsTable (given : List Occurrence) :
    ((argsTable given).map Prod.fst).Nodup := by
  rw [argsTable, table_names]
  exact (List.nodup_dedup _).filter _

/-! ## Requests with one row -/

section Requests

variable {conf : Config} {request request' : Request}

theorem mem_paramFields (conf : Config) (given : List Occurrence) (field : Text) :
    (conf.VariesOnParam field → occurrences given field ≠ [] →
        field ∈ paramFields (argsTable given) conf)
      ∧ (field ∈ paramFields (argsTable given) conf → conf.VariesOnParam field) := by
  have hall : occurrences given field ≠ [] → field ∈ sortTexts ((argsTable given).map Prod.fst) :=
    fun hne => (sortTexts_perm _).mem_iff.mpr (mem_names_argsTable.mpr hne)
  unfold paramFields Config.VariesOnParam
  rcases conf.varyQueryParams with _ | _ | ⟨first, fields⟩
  · exact ⟨fun _ => hall, fun _ => trivial⟩
  · exact ⟨fun _ => hall, fun _ => trivial⟩
  · exact ⟨fun h _ => h, id⟩

/-- The fields of the parameters, where two requests have the same of them. -/
theorem paramFields_eq {given given' : List Occurrence} (h : ∀ field, conf.VariesOnParam field →
    (occurrences given field).Perm (occurrences given' field)) :
    paramFields (argsTable given) conf = paramFields (argsTable given') conf := by
  have hall : (∀ field, (occurrences given field).Perm (occurrences given' field)) →
      sortTexts ((argsTable given).map Prod.fst) = sortTexts ((argsTable given').map Prod.fst) := by
    intro hperm
    refine sortTexts_of_perm ((List.perm_ext_iff_of_nodup (nodup_names_argsTable _)
      (nodup_names_argsTable _)).mpr fun name => ?_)
    rw [mem_names_argsTable, mem_names_argsTable]
    exact not_congr ⟨fun hnil => List.nil_perm.mp (hnil ▸ hperm name),
      fun hnil => List.perm_nil.mp (hnil ▸ hperm name)⟩
  unfold Config.VariesOnParam at h
  unfold paramFields
  rcases hconf : conf.varyQueryParams with _ | _ | ⟨first, fields⟩
  · exact hall fun field => h field (by rw [hconf]; trivial)
  · exact hall fun field => h field (by rw [hconf]; trivial)
  · rfl

theorem named_of_occurrences {given : List Occurrence} {name : Text}
    (h : occurrences given name ≠ []) : name ≠ [] := by
  obtain ⟨occurrence, -, rfl⟩ := List.mem_map.mp (occurrences_ne_nil_iff.mp h)
  exact occurrence.named

theorem named_of_headerValues {given : List Occurrence} {field : Text}
    (h : headerValues given field ≠ []) : field ≠ [] := by
  rintro rfl
  unfold headerValues at h
  split at h
  · exact named_of_occurrences h rfl
  · exact named_of_occurrences ‹_› rfl

/-- Two requests that have keys have one row exactly when they are requests
for one response. -/
theorem row_eq_iff (h : ¬ request.Raises conf) (h' : ¬ request'.Raises conf) :
    request.row conf = request'.row conf ↔ SameRequest conf request request' := by
  obtain ⟨hparams, hheaders⟩ := not_or.mp h
  obtain ⟨hparams', hheaders'⟩ := not_or.mp h'
  unfold Request.varyingParams at hparams hparams'
  rw [lookup_argsTable] at hparams hparams'
  unfold Request.row Request.varyingParams Request.varyingHeaders
  rw [lookup_argsTable, lookup_argsTable]
  constructor
  · intro heq
    have hnamed := readable_printAll (fun _ => named_of_occurrences) hparams
    have hnamed' := readable_printAll (fun _ => named_of_occurrences) hparams'
    have hfields := readable_printAll (fun _ => named_of_headerValues) hheaders
    have hfields' := readable_printAll (fun _ => named_of_headerValues) hheaders'
    obtain ⟨hid, hroute, hmethod, huri, hrest⟩ : request.consumerId = request'.consumerId
        ∧ request.routeId = request'.routeId ∧ request.method = request'.method
        ∧ request.uri conf = request'.uri conf ∧ _ ++ _ = _ ++ _ := by
      cases hid : request.consumerId <;> cases hid' : request'.consumerId <;>
        simp [hid, hid'] at heq ⊢ <;> exact heq
    obtain ⟨hp, hh⟩ := fieldsRow_inj hnamed hnamed' hrest
    obtain ⟨hh, -⟩ := fieldsRow_inj hfields hfields' (congrArg (· ++ []) hh)
    refine ⟨hid, hroute, hmethod, huri, fun field hvaries => ?_, fun field hfield => ?_⟩
    · exact values_perm hparams hparams' hp ((mem_paramFields conf _ field).1 hvaries)
        ((mem_paramFields conf _ field).1 hvaries)
    · exact values_perm hheaders hheaders' hh (fun _ => hfield) fun _ => hfield
  · intro hsame
    rw [hsame.consumer, hsame.route, hsame.method, hsame.uri,
      printAll_congr hheaders hheaders' hsame.headers]
    rw [← paramFields_eq hsame.params] at hparams' ⊢
    rw [printAll_congr hparams hparams' fun field hfield =>
      hsame.params field ((mem_paramFields conf _ field).2 hfield)]

end Requests

/-! ## The keys of two requests -/

/-- Two requests with one key are requests for one response exactly when
they are so anyway, or one of them has no key, or they differ in what is
read of them and no separator shifts between their parts. -/
theorem same_key_same_request_iff (sha256Hex : Text → Text) (limits : Limits) (conf : Config)
    (request request' : Request)
    (hsha : ∀ text ∈ [(request.read limits).keyText conf, (request'.read limits).keyText conf],
      ∀ text' ∈ [(request.read limits).keyText conf, (request'.read limits).keyText conf],
        sha256Hex text = sha256Hex text' → text = text') :
    (∀ key, accessKey sha256Hex limits conf request = .ok key →
      accessKey sha256Hex limits conf request' = .ok key → SameRequest conf request request')
    ↔ (request.read limits).Raises conf ∨ (request'.read limits).Raises conf
      ∨ SameRequest conf request request'
      ∨ ¬ SameRequest conf (request.read limits) (request'.read limits)
        ∧ ¬ Shifted ((request.read limits).row conf) ((request'.read limits).row conf) := by
  by_cases hr : (request.read limits).Raises conf
  · obtain ⟨err, herr⟩ := accessKey_raises sha256Hex hr
    simp [hr, herr]
  by_cases hr' : (request'.read limits).Raises conf
  · obtain ⟨err, herr⟩ := accessKey_raises sha256Hex hr'
    simp [hr', herr]
  obtain ⟨hkey, htext⟩ := accessKey_eq sha256Hex hr
  obtain ⟨hkey', htext'⟩ := accessKey_eq sha256Hex hr'
  have hrows : (request.read limits).keyText conf = (request'.read limits).keyText conf
      ↔ SameRequest conf (request.read limits) (request'.read limits)
        ∨ Shifted ((request.read limits).row conf) ((request'.read limits).row conf) := by
    rw [← row_eq_iff hr hr', ← join_eq_iff, htext, htext', List.append_left_inj]
  rw [hkey, hkey', ← not_or, ← hrows]
  simp only [hr, hr', false_or]
  constructor
  · intro h
    by_cases heq : (request.read limits).keyText conf = (request'.read limits).keyText conf
    · exact .inl (h _ rfl (by rw [heq]))
    · exact .inr heq
  · rintro (h | h)
    · exact fun _ _ _ => h
    · intro key hok hok'
      cases hok
      exact absurd (hsha _ (by simp) _ (by simp) (Except.ok.inj hok').symm) h

/-- A configuration without headers or parameters of its own. -/
def defaultConfig : Config := { varyQueryParams := none, varyHeaders := none, ignoreUriCase := false }

/-- A request with values of one parameter. -/
def sampleRequest (query : String) (values : List String) : Request where
  consumerId := none
  routeId := ofText "route"
  method := ofText "GET"
  requestLine := ofText "GET /a?" ++ ofText query ++ ofText " HTTP/1.1"
  query := values.map fun value => ⟨ofText "a", some (ofText value), by decide⟩
  headers := []

theorem other_value_other_key :
    accessKey id {} defaultConfig (sampleRequest "a=1" ["1"])
      ≠ accessKey id {} defaultConfig (sampleRequest "a=2" ["2"]) := by
  have hdiffer : ¬ SameRequest defaultConfig ((sampleRequest "a=1" ["1"]).read {})
      ((sampleRequest "a=2" ["2"]).read {}) := by
    intro hsame
    have hperm := hsame.params (ofText "a") trivial
    revert hperm
    decide +kernel
  have hplain := @not_shifted Byte [124, 58, 61, 44]
    (((sampleRequest "a=1" ["1"]).read {}).row defaultConfig)
    (((sampleRequest "a=2" ["2"]).read {}).row defaultConfig) (by decide +kernel) (by decide +kernel)
  have hpair := (same_key_same_request_iff id {} defaultConfig (sampleRequest "a=1" ["1"])
    (sampleRequest "a=2" ["2"]) (fun _ _ _ _ h => h)).mpr
      (.inr (.inr (.inr ⟨hdiffer, hplain⟩)))
  intro h
  have hkey : accessKey id {} defaultConfig (sampleRequest "a=1" ["1"])
      = .ok (ofText "route|GET|GET /a|a=1|") := by decide +kernel
  have hperm := (hpair _ hkey (h.symm.trans hkey)).params (ofText "a") trivial
  revert hperm
  decide +kernel

/-- `?a=1&a=2` and `?a=1,2` share a response. -/
theorem two_values_share_key :
    ¬ (∀ key, accessKey id {} defaultConfig (sampleRequest "a=1&a=2" ["1", "2"]) = .ok key →
      accessKey id {} defaultConfig (sampleRequest "a=1,2" ["1,2"]) = .ok key →
      SameRequest defaultConfig (sampleRequest "a=1&a=2" ["1", "2"])
        (sampleRequest "a=1,2" ["1,2"])) := by
  intro h
  have hpresent : present (lookup (argsTable (sampleRequest "a=1&a=2" ["1", "2"]).query))
      (paramFields (argsTable (sampleRequest "a=1&a=2" ["1", "2"]).query) defaultConfig)
      = [(ofText "a", .table [some (ofText "1"), some (ofText "2")])] := by decide +kernel
  have hsort : sortTexts [ofText "1", ofText "2"] = [ofText "1", ofText "2"] :=
    List.mergeSort_of_pairwise (by decide +kernel)
  have hfield : fieldKey (ofText "a") (.table [some (ofText "1"), some (ofText "2")])
      = .ok (ofText "a=1,2") := by
    rw [fieldKey, concatSorted, if_neg (by decide)]
    change Except.ok (ofText "a" ++ [61]
      ++ [44].intercalate (sortTexts [ofText "1", ofText "2"])) = _
    rw [hsort]
    decide +kernel
  have hkey : accessKey id {} defaultConfig (sampleRequest "a=1&a=2" ["1", "2"])
      = .ok (ofText "route|GET|GET /a|a=1,2|") := by
    change buildCacheKey _ _ _ _ _ (argsTable (sampleRequest "a=1&a=2" ["1", "2"]).query) _ _ = _
    rw [buildCacheKey, paramsKey, generateKeyFrom, hpresent, List.mapM_cons, hfield]
    decide +kernel
  have hkey' : accessKey id {} defaultConfig (sampleRequest "a=1,2" ["1,2"])
      = .ok (ofText "route|GET|GET /a|a=1,2|") := by decide +kernel
  have hperm := (h _ hkey hkey').params (ofText "a") trivial
  revert hperm
  decide +kernel

end KongGateway.Kong.Plugins.ProxyCache

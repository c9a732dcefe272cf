import KongGateway.Kong.Plugins.ProxyCache.CacheKey

/-!
# Arguments — what building a key does to its tables

`generate_key_from` sorts the values of a repeated argument where they are,
in the table of the caller, and joins them. Neither can be done with `true`
among the values, which is what an occurrence without a value gives.
-/

namespace KongGateway.Kong.Plugins.ProxyCache

open Bytes

/-! ## Tables of arguments -/

/-- A table of parameters or of headers. `index` is the name read for one
that has no entry, as headers have it. -/
structure Args where
  entries : List (Text × Arg)
  nodup : (entries.map Prod.fst).Nodup
  index : Text → Text

/-- The name of the entry that `args[field]` reads. -/
def Args.slot (args : Args) (field : Text) : Text :=
  if (lookup args.entries field).isSome then field else args.index field

def Args.get (args : Args) (field : Text) : Option Arg := lookup args.entries (args.slot field)

/-- The table once the values of an argument are others. -/
def Args.set (args : Args) (field : Text) (arg : Arg) : Args where
  entries := args.entries.map fun entry =>
    if entry.1 = args.slot field then (entry.1, arg) else entry
  nodup := by
    have hnames : (args.entries.map fun entry =>
        if entry.1 = args.slot field then (entry.1, arg) else entry).map Prod.fst
          = args.entries.map Prod.fst := by
      rw [List.map_map]
      refine List.map_congr_left fun entry _ => ?_
      show (if entry.1 = args.slot field then (entry.1, arg) else entry).1 = entry.1
      split <;> rfl
    rw [hnames]
    exact args.nodup
  index := args.index

/-! ## The key of a table -/

/-- `sort(arg)`: one value is not compared with any other. -/
def sortValues (values : List Value) : Lua (List Value) :=
  if 2 ≤ values.length ∧ none ∈ values then .error "attempt to compare boolean with string"
  else if none ∈ values then .ok values
  else .ok ((sortTexts (values.filterMap id)).map some)

/-- `concat(arg, ",")`. -/
def concatValues (values : List Value) : Lua Text :=
  if none ∈ values then .error "invalid value (boolean) in table for 'concat'"
  else .ok ([44].intercalate (values.filterMap id))

/-- What `generate_key_from` inserts for an argument. -/
def Args.insertKey (args : Args) (field : Text) : Arg → Lua (Text × Args)
  | .table values => do
    let sorted ← sortValues values
    let joined ← concatValues sorted
    .ok (field ++ [61] ++ joined, args.set field (.table sorted))
  | .flag => .ok (field, args)
  | .text value => .ok (field ++ [61] ++ value, args)

def Args.insertKeys (args : Args) : List Text → Lua (List Text × Args)
  | [] => .ok ([], args)
  | field :: fields =>
    match args.get field with
    | none => args.insertKeys fields
    | some arg => do
      let inserted ← args.insertKey field arg
      let rest ← inserted.2.insertKeys fields
      .ok (inserted.1 :: rest.1, rest.2)

def Args.generateKeyFrom (args : Args) (varyFields : List Text) : Lua (Text × Args) := do
  let cacheKey ← args.insertKeys varyFields
  .ok ([58].intercalate cacheKey.1, cacheKey.2)

def Args.paramsKey (params : Args) (conf : Config) : Lua (Text × Args) :=
  params.generateKeyFrom (paramFields params.entries conf)

def Args.headersKey (headers : Args) (conf : Config) : Lua (Text × Args) :=
  headers.generateKeyFrom (conf.varyHeaders.getD [])

/-- `build_cache_key`: the key, and what the tables of the caller are then. -/
def buildCacheKeyIn (sha256Hex : Text → Text) (consumerId routeId : Option Text)
    (method uri : Text) (params headers : Args) (conf : Config) : Lua (Text × Args × Args) := do
  let paramsDigest ← params.paramsKey conf
  let headersDigest ← headers.headersKey conf
  .ok (sha256Hex ([124].intercalate
    [prefixUuid consumerId routeId, method, uri, paramsDigest.1, headersDigest.1]),
    paramsDigest.2, headersDigest.2)

/-! ## Sorted texts -/

theorem sortTexts_eq_self_iff {texts : List Text} :
    sortTexts texts = texts ↔ texts.Pairwise (· ≤ ·) := by
  constructor
  · intro h
    rw [← h]
    exact sortTexts_pairwise texts
  · intro h
    exact eq_of_sorted_perm (sortTexts_pairwise texts) h (sortTexts_perm texts)

/-! ## Reading and writing an entry -/

theorem lookup_isSome_iff {entries : List (Text × Arg)} {name : Text} :
    (lookup entries name).isSome = true ↔ name ∈ entries.map Prod.fst := by
  rw [lookup, List.lookup_isSome_iff, List.mem_map]
  constructor
  · rintro ⟨entry, hmem, hname⟩
    exact ⟨entry, hmem, (beq_iff_eq.mp hname).symm⟩
  · rintro ⟨entry, hmem, rfl⟩
    exact ⟨entry, hmem, beq_self_eq_true entry.1⟩

theorem lookup_of_mem {entries : List (Text × Arg)} (hnodup : (entries.map Prod.fst).Nodup)
    {entry : Text × Arg} (hmem : entry ∈ entries) : lookup entries entry.1 = some entry.2 := by
  unfold lookup
  induction entries with
  | nil => cases hmem
  | cons head entries ih =>
    rw [List.map_cons, List.nodup_cons] at hnodup
    rcases List.mem_cons.mp hmem with rfl | hmem
    · exact List.lookup_cons_self
    · have hne : entry.1 ≠ head.1 := fun heq => hnodup.1 (heq ▸ List.mem_map_of_mem hmem)
      rw [List.lookup_cons, beq_false_of_ne hne]
      exact ih hnodup.2 hmem

theorem lookup_replace (entries : List (Text × Arg)) (name other : Text) (arg : Arg) :
    lookup (entries.map fun entry => if entry.1 = name then (entry.1, arg) else entry) other
      = if other = name then (lookup entries other).map fun _ => arg else lookup entries other := by
  unfold lookup
  induction entries with
  | nil =>
    split <;> rfl
  | cons entry entries ih =>
    rw [List.map_cons, List.lookup_cons, List.lookup_cons, ih]
    by_cases hentry : entry.1 = name
    · rw [if_pos hentry]
      by_cases hother : other = name
      · simp [hother, hentry]
      · have hne : other ≠ entry.1 := fun heq => hother (heq.trans hentry)
        simp [hother, beq_false_of_ne hne]
    · rw [if_neg hentry]
      by_cases hother : other = name
      · have hne : other ≠ entry.1 := fun heq => hentry (heq.symm.trans hother)
        simp [hother, beq_false_of_ne (hother ▸ hne)]
      · simp [hother]

namespace Args

variable (args : Args)

@[simp] theorem slot_set (field other : Text) (arg : Arg) :
    (args.set field arg).slot other = args.slot other := by
  have hisSome : (lookup (args.set field arg).entries other).isSome
      = (lookup args.entries other).isSome := by
    show (lookup (args.entries.map _) other).isSome = _
    rw [lookup_replace]
    split
    · exact Option.isSome_map
    · rfl
  unfold slot
  rw [hisSome]
  rfl

theorem get_set (field other : Text) (arg : Arg) :
    (args.set field arg).get other
      = if args.slot other = args.slot field then (args.get other).map fun _ => arg
        else args.get other := by
  unfold get
  rw [slot_set]
  exact lookup_replace args.entries (args.slot field) (args.slot other) arg

theorem set_of_get {field : Text} {arg : Arg} (h : args.get field = some arg) :
    args.set field arg = args := by
  have hentries : (args.entries.map fun entry =>
      if entry.1 = args.slot field then (entry.1, arg) else entry) = args.entries := by
    conv_rhs => rw [← List.map_id args.entries]
    refine List.map_congr_left fun entry hmem => ?_
    by_cases hname : entry.1 = args.slot field
    · have hentry := lookup_of_mem args.nodup hmem
      rw [hname] at hentry
      obtain rfl : arg = entry.2 := Option.some.inj (h.symm.trans hentry)
      rw [if_pos hname]
      rfl
    · rw [if_neg hname]
      rfl
  unfold set
  congr

end Args

/-! ## Sorting a table -/

/-- An argument once its values are sorted. -/
def Arg.sorted : Arg → Arg
  | .table values => .table ((sortTexts (values.filterMap id)).map some)
  | arg => arg

/-- The table once the values of a field are sorted. -/
def Args.sortField (args : Args) (field : Text) : Args :=
  match args.get field with
  | some arg => args.set field arg.sorted
  | none => args

theorem filterMap_id_map_some (texts : List Text) : (texts.map some).filterMap id = texts := by
  rw [List.filterMap_map]
  exact List.filterMap_some

@[simp] theorem Arg.sorted_sorted (arg : Arg) : arg.sorted.sorted = arg.sorted := by
  cases arg with
  | flag => rfl
  | text value => rfl
  | table values =>
    have hsorted := sortTexts_pairwise (values.filterMap id)
    rw [sorted, sorted, filterMap_id_map_some, sortTexts_eq_self_iff.mpr hsorted]

/-- The values of a table are texts in their order. -/
def Arg.InOrder (arg : Arg) : Prop :=
  ∀ values, arg = .table values →
    ∃ texts : List Text, values = texts.map some ∧ texts.Pairwise (· ≤ ·)

theorem Arg.sorted_eq_self_iff {arg : Arg} : arg.sorted = arg ↔ arg.InOrder := by
  constructor
  · rintro h values rfl
    refine ⟨sortTexts (values.filterMap id), ?_, sortTexts_pairwise _⟩
    exact (Arg.table.inj h).symm
  · intro h
    cases arg with
    | flag => rfl
    | text value => rfl
    | table values =>
      obtain ⟨texts, rfl, htexts⟩ := h values rfl
      rw [sorted, filterMap_id_map_some, sortTexts_eq_self_iff.mpr htexts]

namespace Args

variable (args : Args)

@[simp] theorem slot_sortField (field other : Text) :
    (args.sortField field).slot other = args.slot other := by
  unfold sortField
  cases args.get field with
  | none => rfl
  | some arg => exact args.slot_set field other arg.sorted

theorem get_congr {field other : Text} (h : args.slot other = args.slot field) :
    args.get other = args.get field := by
  unfold get
  rw [h]

theorem get_sortField (field other : Text) :
    (args.sortField field).get other
      = if args.slot other = args.slot field then (args.get other).map Arg.sorted
        else args.get other := by
  unfold sortField
  cases hget : args.get field with
  | none =>
    show args.get other = _
    split
    · rename_i hslot
      rw [args.get_congr hslot, hget]
      rfl
    · rfl
  | some arg =>
    show (args.set field arg.sorted).get other = _
    rw [get_set]
    split
    · rename_i hslot
      rw [args.get_congr hslot, hget]
      rfl
    · rfl

theorem get_sortFields (fields : List Text) (other : Text) :
    (fields.foldl sortField args).get other
      = if args.slot other ∈ fields.map args.slot then (args.get other).map Arg.sorted
        else args.get other := by
  induction fields generalizing args with
  | nil => rfl
  | cons field fields ih =>
    have hslots : (args.sortField field).slot = args.slot :=
      funext fun other => args.slot_sortField field other
    rw [List.foldl_cons, ih, hslots, get_sortField, List.map_cons]
    by_cases hfield : args.slot other = args.slot field
    · simp [hfield, Option.map_map, Function.comp_def]
    · simp [hfield]

theorem sortFields_eq_self_iff (fields : List Text) :
    fields.foldl sortField args = args
      ↔ ∀ field ∈ fields, ∀ arg, args.get field = some arg → arg.InOrder := by
  constructor
  · intro h field hfield arg hget
    have hsorted := args.get_sortFields fields field
    rw [h, if_pos (List.mem_map_of_mem hfield), hget] at hsorted
    exact Arg.sorted_eq_self_iff.mp (Option.some.inj hsorted).symm
  · intro h
    induction fields with
    | nil => rfl
    | cons field fields ih =>
      have hfield : args.sortField field = args := by
        unfold sortField
        cases hget : args.get field with
        | none => rfl
        | some arg =>
          have hsorted := Arg.sorted_eq_self_iff.mpr (h field List.mem_cons_self arg hget)
          show args.set field arg.sorted = args
          rw [hsorted]
          exact args.set_of_get hget
      rw [List.foldl_cons, hfield]
      exact ih fun other hother => h other (List.mem_cons_of_mem field hother)

end Args

/-! ## The values in another order -/

/-- The same argument with its values in another order. -/
def Arg.Permuted : Arg → Arg → Prop
  | .table values, .table values' => values.Perm values'
  | arg, arg' => arg = arg'

/-- Tables with the same arguments, each with its values in some order. -/
structure Args.Permuted (args args' : Args) : Prop where
  index : args.index = args'.index
  entries : ∀ name, Option.Rel Arg.Permuted (lookup args.entries name) (lookup args'.entries name)

theorem Arg.Permuted.refl (arg : Arg) : arg.Permuted arg := by
  cases arg with
  | flag => rfl
  | text value => rfl
  | table values => exact List.Perm.refl values

theorem isSome_eq_of_rel {arg arg' : Option Arg} (h : Option.Rel Arg.Permuted arg arg') :
    arg.isSome = arg'.isSome := by
  cases h with
  | none => rfl
  | some _ => rfl

theorem Args.Permuted.get {args args' : Args} (h : args.Permuted args') (field : Text) :
    Option.Rel Arg.Permuted (args.get field) (args'.get field) := by
  have hslot : args.slot field = args'.slot field := by
    unfold slot
    rw [isSome_eq_of_rel (h.entries field), h.index]
  unfold Args.get
  rw [hslot]
  exact h.entries (args'.slot field)

theorem Args.Permuted.names {args args' : Args} (h : args.Permuted args') :
    (args.entries.map Prod.fst).Perm (args'.entries.map Prod.fst) := by
  rw [List.perm_ext_iff_of_nodup args.nodup args'.nodup]
  intro name
  rw [← lookup_isSome_iff, ← lookup_isSome_iff, isSome_eq_of_rel (h.entries name)]

theorem paramFields_of_permuted {params params' : Args} (h : params.Permuted params')
    (conf : Config) : paramFields params.entries conf = paramFields params'.entries conf := by
  unfold paramFields
  rw [sortTexts_of_perm h.names]

theorem concatSorted_of_perm {values values' : List Value} (h : values.Perm values') :
    concatSorted values = concatSorted values' := by
  unfold concatSorted
  simp only [h.mem_iff, sortTexts_of_perm (h.filterMap id)]

theorem fieldKey_of_permuted {field : Text} {arg arg' : Arg} (h : arg.Permuted arg') :
    fieldKey field arg = fieldKey field arg' := by
  cases arg with
  | flag =>
    obtain rfl : Arg.flag = arg' := h
    rfl
  | text value =>
    obtain rfl : Arg.text value = arg' := h
    rfl
  | table values =>
    cases arg' with
    | flag => cases h
    | text value => cases h
    | table values' => rw [fieldKey, concatSorted_of_perm h, fieldKey]

/-- What is inserted for each field. -/
def fieldKeys (args : Text → Option Arg) (fields : List Text) : Lua (List Text) :=
  (present args fields).mapM fun field => fieldKey field.1 field.2

theorem fieldKeys_cons_none {args : Text → Option Arg} {field : Text} (h : args field = none)
    (fields : List Text) : fieldKeys args (field :: fields) = fieldKeys args fields := by
  unfold fieldKeys present
  rw [List.filterMap_cons_none (by rw [h]; rfl)]

theorem fieldKeys_cons_some {args : Text → Option Arg} {field : Text} {arg : Arg}
    (h : args field = some arg) (fields : List Text) :
    fieldKeys args (field :: fields) = (do
      let key ← fieldKey field arg
      let keys ← fieldKeys args fields
      .ok (key :: keys)) := by
  unfold fieldKeys present
  rw [List.filterMap_cons_some (by rw [h]; rfl), List.mapM_cons]
  rfl

theorem fieldKeys_congr {args args' : Text → Option Arg} {fields : List Text}
    (h : ∀ field ∈ fields, Option.Rel Arg.Permuted (args field) (args' field)) :
    fieldKeys args fields = fieldKeys args' fields := by
  induction fields with
  | nil => rfl
  | cons field fields ih =>
    have hrest := ih fun other hother => h other (List.mem_cons_of_mem field hother)
    have hfield := h field List.mem_cons_self
    cases harg : args field with
    | none =>
      rw [harg] at hfield
      cases harg' : args' field with
      | none => rw [fieldKeys_cons_none harg, fieldKeys_cons_none harg', hrest]
      | some arg' =>
        rw [harg'] at hfield
        cases hfield
    | some arg =>
      rw [harg] at hfield
      cases harg' : args' field with
      | none =>
        rw [harg'] at hfield
        cases hfield
      | some arg' =>
        rw [harg'] at hfield
        cases hfield with
        | some hperm =>
          rw [fieldKeys_cons_some harg, fieldKeys_cons_some harg', hrest,
            fieldKey_of_permuted hperm]

/-! ## A run of `generate_key_from` -/

theorem sortValues_ok {values : List Value} (h : none ∉ values) :
    sortValues values = .ok ((sortTexts (values.filterMap id)).map some) := by
  rw [sortValues, if_neg fun hboth => h hboth.2, if_neg h]

theorem concatValues_map_some (texts : List Text) :
    concatValues (texts.map some) = .ok ([44].intercalate texts) := by
  rw [concatValues, if_neg (by simp), filterMap_id_map_some]

/-- A list with `true` in it is not sorted, or is then not joined. -/
theorem sortValues_of_true {values sorted : List Value} (h : none ∈ values)
    (hsort : sortValues values = .ok sorted) : sorted = values := by
  unfold sortValues at hsort
  split at hsort
  · cases hsort
  · cases hsort
    rfl

theorem concatValues_raises {values : List Value} (h : none ∈ values) :
    ∃ err, concatValues values = .error err := by
  rw [concatValues, if_pos h]
  exact ⟨_, rfl⟩

theorem Args.insertKey_ok {args : Args} {field : Text} {arg : Arg} (hget : args.get field = some arg)
    {key : Text} (hkey : fieldKey field arg = .ok key) :
    args.insertKey field arg = .ok (key, args.sortField field) ∧ arg.Permuted arg.sorted := by
  have hset : args.sortField field = args.set field arg.sorted := by
    rw [sortField, hget]
  rw [hset]
  cases arg with
  | flag =>
    cases hkey
    rw [show Arg.flag.sorted = Arg.flag from rfl, args.set_of_get hget]
    exact ⟨rfl, rfl⟩
  | text value =>
    cases hkey
    rw [show (Arg.text value).sorted = Arg.text value from rfl, args.set_of_get hget]
    exact ⟨rfl, rfl⟩
  | table values =>
    by_cases hnone : none ∈ values
    · obtain ⟨err, herr⟩ : ∃ err, fieldKey field (.table values) = .error err :=
        @fieldKey_raises (field, .table values) values rfl hnone
      cases hkey.symm.trans herr
    · rw [fieldKey, concatSorted, if_neg hnone] at hkey
      cases hkey
      constructor
      · rw [insertKey, sortValues_ok hnone]
        show (do
          let joined ← concatValues ((sortTexts (values.filterMap id)).map some)
          Except.ok (field ++ [61] ++ joined, _)) = _
        rw [concatValues_map_some]
        rfl
      · exact (sorted_perm hnone).symm

theorem Args.insertKey_raises (args : Args) {field : Text} {arg : Arg} {err : String}
    (herr : fieldKey field arg = .error err) : ∃ err, args.insertKey field arg = .error err := by
  cases arg with
  | flag => cases herr
  | text value => cases herr
  | table values =>
    by_cases hnone : none ∈ values
    · rw [insertKey]
      cases hsort : sortValues values with
      | error err => exact ⟨err, rfl⟩
      | ok sorted =>
        obtain rfl := sortValues_of_true hnone hsort
        obtain ⟨err, hconcat⟩ := concatValues_raises hnone
        refine ⟨err, ?_⟩
        show (do
          let joined ← concatValues sorted
          Except.ok (field ++ [61] ++ joined, _)) = _
        rw [hconcat]
        rfl
    · rw [fieldKey, concatSorted, if_neg hnone] at herr
      cases herr

theorem Args.get_sortField_permuted {args : Args} {field : Text} {arg : Arg}
    (hget : args.get field = some arg) (hperm : arg.Permuted arg.sorted) (other : Text) :
    Option.Rel Arg.Permuted (args.get other) ((args.sortField field).get other) := by
  rw [get_sortField]
  split
  · rename_i hslot
    rw [args.get_congr hslot, hget]
    exact .some hperm
  · cases args.get other with
    | none => exact .none
    | some arg => exact .some (Arg.Permuted.refl arg)

theorem Args.insertKeys_ok {args : Args} {fields keys : List Text}
    (hkeys : fieldKeys args.get fields = .ok keys) :
    args.insertKeys fields = .ok (keys, fields.foldl sortField args) := by
  induction fields generalizing args keys with
  | nil =>
    cases hkeys
    rfl
  | cons field fields ih =>
    rw [insertKeys]
    cases hget : args.get field with
    | none =>
      have hsort : args.sortField field = args := by
        rw [sortField, hget]
      rw [fieldKeys_cons_none hget] at hkeys
      rw [List.foldl_cons, hsort]
      exact ih hkeys
    | some arg =>
      rw [fieldKeys_cons_some hget] at hkeys
      obtain ⟨key, hkey, hkeys⟩ := MapM.bind_ok hkeys
      obtain ⟨rest, hrest, hkeys⟩ := MapM.bind_ok hkeys
      cases hkeys
      obtain ⟨hinsert, hperm⟩ := insertKey_ok hget hkey
      rw [fieldKeys_congr fun other _ => get_sortField_permuted hget hperm other] at hrest
      show (do
        let inserted ← args.insertKey field arg
        let rest ← inserted.2.insertKeys fields
        Except.ok (inserted.1 :: rest.1, rest.2)) = _
      rw [hinsert]
      show (do
        let rest ← (args.sortField field).insertKeys fields
        Except.ok (key :: rest.1, rest.2)) = _
      rw [ih hrest]
      rfl

theorem Args.insertKeys_raises {args : Args} {fields : List Text} {err : String}
    (herr : fieldKeys args.get fields = .error err) :
    ∃ err, args.insertKeys fields = .error err := by
  induction fields generalizing args err with
  | nil => cases herr
  | cons field fields ih =>
    rw [insertKeys]
    cases hget : args.get field with
    | none =>
      rw [fieldKeys_cons_none hget] at herr
      exact ih herr
    | some arg =>
      rw [fieldKeys_cons_some hget] at herr
      show ∃ err, (do
        let inserted ← args.insertKey field arg
        let rest ← inserted.2.insertKeys fields
        Except.ok (inserted.1 :: rest.1, rest.2)) = .error err
      cases hkey : fieldKey field arg with
      | error err =>
        obtain ⟨err, hinsert⟩ := args.insertKey_raises hkey
        rw [hinsert]
        exact ⟨err, rfl⟩
      | ok key =>
        obtain ⟨hinsert, hperm⟩ := insertKey_ok hget hkey
        rw [hinsert]
        show ∃ err, (do
          let rest ← (args.sortField field).insertKeys fields
          Except.ok (key :: rest.1, rest.2)) = .error err
        cases hrest : fieldKeys args.get fields with
        | ok rest =>
          rw [hkey, hrest] at herr
          cases herr
        | error err =>
          rw [fieldKeys_congr fun other _ => get_sortField_permuted hget hperm other] at hrest
          obtain ⟨err, hrest⟩ := ih hrest
          rw [hrest]
          exact ⟨err, rfl⟩

/-- The text is the one of the values in their order, and the values are
sorted in the table. -/
theorem Args.generateKeyFrom_ok_iff {args after : Args} {fields : List Text} {key : Text} :
    args.generateKeyFrom fields = .ok (key, after)
      ↔ ProxyCache.generateKeyFrom args.get fields = .ok key
        ∧ fields.foldl sortField args = after := by
  unfold generateKeyFrom ProxyCache.generateKeyFrom
  rw [← fieldKeys]
  cases hkeys : fieldKeys args.get fields with
  | error err =>
    obtain ⟨err', hinsert⟩ := insertKeys_raises hkeys
    rw [hinsert]
    constructor
    · intro h
      cases h
    · rintro ⟨h, -⟩
      cases h
  | ok keys =>
    rw [insertKeys_ok hkeys]
    constructor
    · intro h
      cases h
      exact ⟨rfl, rfl⟩
    · rintro ⟨h, rfl⟩
      cases h
      rfl

/-- Every table that is read for some fields holds texts in their order. -/
def Args.InOrder (args : Args) (fields : List Text) : Prop :=
  ∀ field ∈ fields, ∀ arg, args.get field = some arg → arg.InOrder

theorem Args.InOrder.not_raises {args : Args} {fields : List Text} (h : args.InOrder fields) :
    ¬ Raises (present args.get fields) := by
  rintro ⟨entry, hentry, values, htable, hnone⟩
  obtain ⟨field, hfield, hget⟩ := List.mem_filterMap.mp hentry
  obtain ⟨arg, harg, rfl⟩ := Option.map_eq_some_iff.mp hget
  obtain ⟨texts, rfl, -⟩ := h field hfield arg harg values htable
  simp at hnone

/-- A key is made and the table stays as it is when its values are in order. -/
theorem Args.generateKeyFrom_unchanged_iff (args : Args) (fields : List Text) :
    (∃ key, args.generateKeyFrom fields = .ok (key, args)) ↔ args.InOrder fields := by
  constructor
  · rintro ⟨key, hkey⟩
    exact (args.sortFields_eq_self_iff fields).mp (generateKeyFrom_ok_iff.mp hkey).2
  · intro h
    obtain ⟨keys, hkeys, -⟩ := join_fieldsRow h.not_raises
    refine ⟨[58].intercalate keys, generateKeyFrom_ok_iff.mpr ⟨?_, ?_⟩⟩
    · rw [ProxyCache.generateKeyFrom, hkeys]
      rfl
    · exact (args.sortFields_eq_self_iff fields).mpr h

theorem Args.Permuted.generateKeyFrom {args args' : Args} (h : args.Permuted args')
    (fields : List Text) :
    ProxyCache.generateKeyFrom args.get fields = ProxyCache.generateKeyFrom args'.get fields := by
  unfold ProxyCache.generateKeyFrom
  rw [← fieldKeys, ← fieldKeys, fieldKeys_congr fun field _ => h.get field]

/-! ## The key of a request -/

theorem buildCacheKeyIn_ok_iff {sha256Hex : Text → Text} {consumerId routeId : Option Text}
    {method uri : Text} {params headers params' headers' : Args} {conf : Config} {key : Text} :
    buildCacheKeyIn sha256Hex consumerId routeId method uri params headers conf
        = .ok (key, params', headers')
      ↔ ∃ paramsDigest headersDigest,
        params.paramsKey conf = .ok (paramsDigest, params')
          ∧ headers.headersKey conf = .ok (headersDigest, headers')
          ∧ sha256Hex ([124].intercalate
            [prefixUuid consumerId routeId, method, uri, paramsDigest, headersDigest]) = key := by
  constructor
  · intro h
    obtain ⟨⟨paramsDigest, params''⟩, hparams, h⟩ := MapM.bind_ok h
    obtain ⟨⟨headersDigest, headers''⟩, hheaders, h⟩ := MapM.bind_ok h
    cases h
    exact ⟨paramsDigest, headersDigest, hparams, hheaders, rfl⟩
  · rintro ⟨paramsDigest, headersDigest, hparams, hheaders, rfl⟩
    rw [buildCacheKeyIn, hparams, hheaders]
    rfl

/-- A key is made of any tables, they stay as they are, and no order of the
values of an argument changes the key, exactly when the values of each list
that the key depends on are texts in their order. -/
theorem key_total_order_free_iff (sha256Hex : Text → Text) (consumerId routeId : Option Text)
    (method uri : Text) (params headers : Args) (conf : Config) :
    (∃ key, buildCacheKeyIn sha256Hex consumerId routeId method uri params headers conf
        = .ok (key, params, headers)
      ∧ ∀ params' headers', params.Permuted params' → headers.Permuted headers' →
        ∃ after, buildCacheKeyIn sha256Hex consumerId routeId method uri params' headers' conf
          = .ok (key, after))
    ↔ params.InOrder (paramFields params.entries conf)
      ∧ headers.InOrder (conf.varyHeaders.getD []) := by
  constructor
  · rintro ⟨key, hkey, -⟩
    obtain ⟨paramsDigest, headersDigest, hparams, hheaders, -⟩ := buildCacheKeyIn_ok_iff.mp hkey
    exact ⟨(params.generateKeyFrom_unchanged_iff _).mp ⟨paramsDigest, hparams⟩,
      (headers.generateKeyFrom_unchanged_iff _).mp ⟨headersDigest, hheaders⟩⟩
  · rintro ⟨hparams, hheaders⟩
    obtain ⟨paramsDigest, hparams⟩ := (params.generateKeyFrom_unchanged_iff _).mpr hparams
    obtain ⟨headersDigest, hheaders⟩ := (headers.generateKeyFrom_unchanged_iff _).mpr hheaders
    refine ⟨_, buildCacheKeyIn_ok_iff.mpr ⟨paramsDigest, headersDigest, hparams, hheaders, rfl⟩, ?_⟩
    intro params' headers' hparams' hheaders'
    have hdigest := (Args.generateKeyFrom_ok_iff.mp hparams).1
    have hdigest' := (Args.generateKeyFrom_ok_iff.mp hheaders).1
    rw [hparams'.generateKeyFrom, paramFields_of_permuted hparams'] at hdigest
    rw [hheaders'.generateKeyFrom] at hdigest'
    exact ⟨_, buildCacheKeyIn_ok_iff.mpr ⟨paramsDigest, headersDigest,
      Args.generateKeyFrom_ok_iff.mpr ⟨hdigest, rfl⟩,
      Args.generateKeyFrom_ok_iff.mpr ⟨hdigest', rfl⟩, rfl⟩⟩

/-- The parameters of `?a&a=1`. -/
def mixedParams : Args where
  entries := [(ofText "a", .table [none, some (ofText "1")])]
  nodup := List.nodup_singleton _
  index := id

def noHeaders : Args where
  entries := []
  nodup := List.nodup_nil
  index := id

/-- No key is made for `?a&a=1`. -/
theorem mixed_values_raise :
    ¬ ∃ key, buildCacheKeyIn id none (some (ofText "route")) (ofText "GET") (ofText "GET /")
        mixedParams noHeaders defaultConfig = .ok (key, mixedParams, noHeaders)
      ∧ ∀ params' headers', mixedParams.Permuted params' → noHeaders.Permuted headers' →
        ∃ after, buildCacheKeyIn id none (some (ofText "route")) (ofText "GET") (ofText "GET /")
          params' headers' defaultConfig = .ok (key, after) := by
  have hraises : buildCacheKeyIn id none (some (ofText "route")) (ofText "GET") (ofText "GET /")
      mixedParams noHeaders defaultConfig = .error "attempt to compare boolean with string" := by
    have hfields : paramFields mixedParams.entries defaultConfig = [ofText "a"] :=
      List.mergeSort_singleton (ofText "a")
    rw [buildCacheKeyIn, Args.paramsKey, hfields]
    rfl
  rintro ⟨key, hkey, -⟩
  rw [hraises] at hkey
  cases hkey

end KongGateway.Kong.Plugins.ProxyCache

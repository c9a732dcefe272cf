import KongGateway.Lib.MapM
import KongGateway.Kong.Db.Off
import KongGateway.Kong.Db.Iteration

/-!
# Each — iterating over LMDB

`DAO:each` goes through the pages of a type, `each_for_` through those of
a foreign key. The iterator gives up at a page with fewer rows than its
size, so an expired entity hides what follows its page. The offset of a
foreign key's page is not decoded again: in base64 it lies above every
foreign key, and the next page is empty.
-/

namespace KongGateway.Kong.Db.Off

open Bytes Declarative Iteration

variable (env : Env) (lmdb : Lmdb) (schema : Schema) (now : Int) (options : WorkspaceOption)
  (fname foreignId : Text) (size : Nat)

/-! ## Iterators -/

/-- A loop over `DAO:each`. -/
def each (fuel : Nat) : Option (List (Except String Entity)) :=
  let pager := page env lmdb schema now options size
  (byRow pager).collect pager size fuel

/-- A loop over the `each_for_` function of a foreign field. -/
def eachFor (fuel : Nat) : Option (List (Except String Entity)) :=
  let pager := pageFor env lmdb schema now fname foreignId options size
  (byRow pager).collect pager size fuel

def followPage (fuel : Nat) : Option (List (Except String Entity)) :=
  followOffsets (page env lmdb schema now options size) fuel none

def followPageFor (fuel : Nat) : Option (List (Except String Entity)) :=
  followOffsets (pageFor env lmdb schema now fname foreignId options size) fuel none

/-! ## What is stored -/

/-- The entries with a prefix, in the order of the keys. -/
def entriesWith (keyPrefix : Text) : List (Text × Value) :=
  lmdb.entries.filter fun entry => keyPrefix.isPrefixOf entry.1

/-- The entries of a type. -/
def itemEntries : List (Text × Value) :=
  entriesWith lmdb (itemKeyPrefix schema.name (workspaceId env schema options))

/-- The entries for the children of a foreign key. -/
def childEntries : List (Text × Value) :=
  entriesWith lmdb
    (foreignFieldKeyPrefix schema.name (workspaceId env schema options) fname foreignId)

/-- The unexpired entity an entry leads to. -/
def liveRow (follow : Bool) (entry : Text × Value) : Option Entity :=
  (pageRow lmdb schema now follow entry.2).toOption.join

/-- Item keys hold entities, index keys hold item keys. -/
def entryOk : Text × Value → Bool
  | (key, .item _) => (ofText "I|").isPrefixOf key
  | (key, .text target) => !(ofText "I|").isPrefixOf key
      && (!(ofText "F|").isPrefixOf key || (ofText "I|").isPrefixOf target)

def WellFormed : Prop := ∀ entry ∈ lmdb.entries, entryOk entry

instance : Decidable (WellFormed lmdb) :=
  inferInstanceAs (Decidable (∀ entry ∈ lmdb.entries, entryOk entry))

variable {env lmdb schema now options fname foreignId size}

theorem isPrefixOf_itemKeyPrefix {schemaName wsId key : Text}
    (h : (itemKeyPrefix schemaName wsId).isPrefixOf key) : (ofText "I|").isPrefixOf key := by
  have hstarts : ofText "I|" <+: itemKeyPrefix schemaName wsId := by
    unfold itemKeyPrefix
    split <;> exact ⟨_, rfl⟩
  exact List.isPrefixOf_iff_prefix.mpr (hstarts.trans (List.isPrefixOf_iff_prefix.mp h))

theorem isPrefixOf_foreignFieldKeyPrefix {schemaName wsId field foreignId key : Text}
    (h : (foreignFieldKeyPrefix schemaName wsId field foreignId).isPrefixOf key) :
    (ofText "F|").isPrefixOf key := by
  have hstarts : ofText "F|" <+: foreignFieldKeyPrefix schemaName wsId field foreignId := by
    unfold foreignFieldKeyPrefix
    split <;> exact ⟨_, rfl⟩
  exact List.isPrefixOf_iff_prefix.mpr (hstarts.trans (List.isPrefixOf_iff_prefix.mp h))

theorem WellFormed.selectByKey_ok (h : WellFormed lmdb) {key : Text}
    (hkey : (ofText "I|").isPrefixOf key) : ∃ row, selectByKey lmdb schema now key = .ok row := by
  unfold selectByKey
  cases hget : lmdb.get key with
  | none => exact ⟨none, rfl⟩
  | some value =>
    cases value with
    | item entity => exact ⟨restore schema now entity, rfl⟩
    | text target =>
      have hok := h _ (OrderedStore.get_eq_some_iff.mp hget)
      simp [entryOk, hkey] at hok

theorem WellFormed.itemRow_ok (h : WellFormed lmdb) {entry : Text × Value}
    (hmem : entry ∈ itemEntries env lmdb schema options) :
    ∃ row, pageRow lmdb schema now false entry.2 = .ok row := by
  obtain ⟨hentry, hstarts⟩ := List.mem_filter.mp hmem
  have hok := h entry hentry
  obtain ⟨key, value⟩ := entry
  cases value with
  | item entity => exact ⟨restore schema now entity, rfl⟩
  | text target => simp [entryOk, isPrefixOf_itemKeyPrefix hstarts] at hok

theorem WellFormed.childRow_ok (h : WellFormed lmdb) {entry : Text × Value}
    (hmem : entry ∈ childEntries env lmdb schema options fname foreignId) :
    ∃ row, pageRow lmdb schema now true entry.2 = .ok row := by
  obtain ⟨hentry, hstarts⟩ := List.mem_filter.mp hmem
  have hok := h entry hentry
  obtain ⟨key, value⟩ := entry
  cases value with
  | item entity => exact ⟨none, rfl⟩
  | text target =>
    have htarget : (ofText "I|").isPrefixOf target := by
      simp only [entryOk, isPrefixOf_foreignFieldKeyPrefix hstarts, Bool.not_true,
        Bool.false_or, Bool.and_eq_true] at hok
      exact hok.2
    exact h.selectByKey_ok htarget

/-! ## Pages as parts of a list -/

theorem pageForPrefix_eq {keyPrefix start : Text} {offset : Option Text} {follow : Bool}
    (hstart : offset.getD keyPrefix = start) {found : List (Text × Value)}
    (hfound : (entriesWith lmdb keyPrefix).filter (fun entry => start ≤ entry.1) = found)
    (hok : ∀ entry ∈ found, ∃ row, pageRow lmdb schema now follow entry.2 = .ok row) :
    pageForPrefix lmdb schema now keyPrefix size offset follow
      = .ok ((found.take size).filterMap (liveRow lmdb schema now follow),
          if size < found.length then (found.take size).getLast?.map fun kv => encodeOffset kv.1
          else none) := by
  have hpage : lmdbPage lmdb (offset.getD keyPrefix) keyPrefix size
      = (found.take size, decide (size < found.length)) := by
    rw [lmdbPage, OrderedStore.page, ← hfound, entriesWith, List.filter_filter, hstart]
  have hrows : (found.take size).mapM (fun kv => pageRow lmdb schema now follow kv.2)
      = .ok ((found.take size).map (liveRow lmdb schema now follow)) := by
    apply MapM.eq_pure_map
    intro entry hmem
    obtain ⟨row, hrow⟩ := hok entry (List.mem_of_mem_take hmem)
    rw [liveRow, hrow]
    rfl
  unfold pageForPrefix
  rw [hpage]
  simp only [hrows]
  change Except.ok _ = Except.ok _
  rw [List.filterMap_map]
  simp only [decide_eq_true_eq]
  rfl

theorem entriesWith_filter_start (keyPrefix : Text) :
    (entriesWith lmdb keyPrefix).filter (fun entry => keyPrefix ≤ entry.1)
      = entriesWith lmdb keyPrefix := by
  rw [List.filter_eq_self]
  intro entry hmem
  have hstarts := List.isPrefixOf_iff_prefix.mp (List.mem_filter.mp hmem).2
  exact decide_eq_true (le_of_isPrefix hstarts)

theorem entriesWith_filter_token {keyPrefix : Text} {n : Nat}
    (hn : n < (entriesWith lmdb keyPrefix).length) :
    (entriesWith lmdb keyPrefix).filter
        (fun entry => (entriesWith lmdb keyPrefix)[n].1 ++ [0] ≤ entry.1)
      = (entriesWith lmdb keyPrefix).drop (n + 1) := by
  have hsorted : (entriesWith lmdb keyPrefix).Pairwise fun a b => a.1 < b.1 :=
    lmdb.sorted.filter _
  rw [← OrderedStore.filter_gt_getElem hsorted hn]
  apply List.filter_congr
  intro entry _
  exact decide_eq_decide.mpr (append_bot_le_iff _ _)

/-- The offset that goes on at an index. -/
def offsetAt (entries : List (Text × Value)) : Nat → Option Text
  | 0 => none
  | n + 1 => entries[n]?.map fun kv => encodeOffset kv.1

theorem getLast?_take_drop {β : Type} {l : List β} {n k : Nat} (hk : 0 < k)
    (h : n + k ≤ l.length) : ((l.drop n).take k).getLast? = l[n + k - 1]? := by
  rw [List.getLast?_eq_getElem?, List.length_take, List.length_drop,
    Nat.min_eq_left (by omega), List.getElem?_take_of_lt (by omega), List.getElem?_drop]
  congr 1
  omega

theorem nextOffset_eq {entries : List (Text × Value)} (hsize : 0 < size) (n : Nat) :
    (if size < (entries.drop n).length
      then ((entries.drop n).take size).getLast?.map fun kv => encodeOffset kv.1 else none)
      = if n + size < entries.length then offsetAt entries (n + size) else none := by
  rw [List.length_drop]
  by_cases hmore : n + size < entries.length
  · rw [if_pos (by omega), if_pos hmore, getLast?_take_drop hsize hmore.le]
    obtain ⟨m, hm⟩ : ∃ m, n + size = m + 1 := ⟨n + size - 1, by omega⟩
    rw [hm]
    rfl
  · rw [if_neg (by omega), if_neg hmore]

theorem cuts_page (h : WellFormed lmdb) (hsize : 0 < size) :
    Cuts (liveRow lmdb schema now false) size (page env lmdb schema now options size)
      (itemEntries env lmdb schema options)
      (offsetAt (itemEntries env lmdb schema options)) where
  start := rfl
  pages := by
    intro n hn
    have hok : ∀ entry ∈ (itemEntries env lmdb schema options).drop n,
        ∃ row, pageRow lmdb schema now false entry.2 = .ok row :=
      fun entry hmem => h.itemRow_ok (List.mem_of_mem_drop hmem)
    rw [← nextOffset_eq hsize n]
    cases n with
    | zero => exact pageForPrefix_eq rfl (entriesWith_filter_start _) hok
    | succ n =>
      have hlt : n < (itemEntries env lmdb schema options).length := by omega
      have hoffset : offsetAt (itemEntries env lmdb schema options) (n + 1)
          = some (encodeOffset (itemEntries env lmdb schema options)[n].1) := by
        rw [offsetAt, List.getElem?_eq_getElem hlt]
        rfl
      rw [hoffset, page, encodeOffset]
      simp only [decodeBase64_encodeBase64]
      exact pageForPrefix_eq rfl (entriesWith_filter_token hlt) hok
  follows := by
    intro n hpos hlt
    obtain ⟨m, rfl⟩ : ∃ m, n = m + 1 := ⟨n - 1, by omega⟩
    rw [offsetAt, List.getElem?_eq_getElem (by omega)]
    rfl

theorem foreignKey_lt_encodeOffset {key key' : Text} (h : (ofText "F|").isPrefixOf key)
    (h' : (ofText "F|").isPrefixOf key') : key' < encodeOffset key := by
  obtain ⟨rest, rfl⟩ := List.isPrefixOf_iff_prefix.mp h
  obtain ⟨rest', rfl⟩ := List.isPrefixOf_iff_prefix.mp h'
  have hencode : ∃ digits, encodeOffset (ofText "F|" ++ rest) = 82 :: digits := by
    have hbytes : ofText "F|" ++ rest ++ [0] = 70 :: 124 :: (rest ++ [0]) := rfl
    rw [encodeOffset, hbytes]
    cases rest with
    | nil => exact ⟨_, rfl⟩
    | cons b rest => exact ⟨_, rfl⟩
  obtain ⟨digits, hdigits⟩ := hencode
  rw [hdigits]
  exact List.Lex.rel (by decide)

theorem pageFor_none
    (hok : ∀ entry ∈ childEntries env lmdb schema options fname foreignId,
      ∃ row, pageRow lmdb schema now true entry.2 = .ok row) :
    pageFor env lmdb schema now fname foreignId options size none
      = .ok (((childEntries env lmdb schema options fname foreignId).take size).filterMap
            (liveRow lmdb schema now true),
          if size < (childEntries env lmdb schema options fname foreignId).length then
            ((childEntries env lmdb schema options fname foreignId).take size).getLast?.map
              fun kv => encodeOffset kv.1
          else none) :=
  pageForPrefix_eq rfl (entriesWith_filter_start _) hok

theorem firstOnly_pageFor (h : WellFormed lmdb) :
    FirstOnly (pageFor env lmdb schema now fname foreignId options size)
      (((childEntries env lmdb schema options fname foreignId).take size).filterMap
        (liveRow lmdb schema now true)) := by
  refine ⟨_, pageFor_none fun entry hmem => h.childRow_ok hmem, ?_⟩
  intro offset hoffset
  have hmore : ∃ entry ∈ childEntries env lmdb schema options fname foreignId,
      offset = encodeOffset entry.1 := by
    split at hoffset
    · obtain ⟨entry, hlast, rfl⟩ := Option.map_eq_some_iff.mp hoffset
      exact ⟨entry, List.mem_of_mem_take (List.mem_of_getLast? hlast), rfl⟩
    · cases hoffset
  obtain ⟨last, hlast, rfl⟩ := hmore
  have hnone : (childEntries env lmdb schema options fname foreignId).filter
      (fun entry => encodeOffset last.1 ≤ entry.1) = [] := by
    rw [List.filter_eq_nil_iff]
    intro entry hmem
    rw [decide_eq_true_eq, not_le]
    exact foreignKey_lt_encodeOffset
      (isPrefixOf_foreignFieldKeyPrefix (List.mem_filter.mp hlast).2)
      (isPrefixOf_foreignFieldKeyPrefix (List.mem_filter.mp hmem).2)
  have hstart : (some (encodeOffset last.1)).getD (foreignFieldKeyPrefix schema.name
      (workspaceId env schema options) fname foreignId) = encodeOffset last.1 := rfl
  unfold pageFor
  rw [pageForPrefix_eq hstart hnone (fun entry hmem => by cases hmem)]
  simp

/-! ## Completeness -/

/-- The unexpired entities of a type. -/
def storedItems (env : Env) (lmdb : Lmdb) (schema : Schema) (now : Int)
    (options : WorkspaceOption) : List Entity :=
  (itemEntries env lmdb schema options).filterMap (liveRow lmdb schema now false)

/-- The unexpired children of a foreign key. -/
def storedChildren (env : Env) (lmdb : Lmdb) (schema : Schema) (now : Int)
    (options : WorkspaceOption) (fname foreignId : Text) : List Entity :=
  (childEntries env lmdb schema options fname foreignId).filterMap
    (liveRow lmdb schema now true)

/-- Following the offsets of a type's pages visits every unexpired entity.
The iterator does so exactly when no unexpired entity lies behind a page
with an expired one; for a foreign key, the pages and the iterator do so
exactly when no unexpired child lies behind the first page. -/
theorem iteration_visits_all_iff (env : Env) (lmdb : Lmdb) (hlmdb : WellFormed lmdb)
    (schema : Schema) (now : Int) (options : WorkspaceOption) (fname foreignId : Text)
    (size : Nat) (hsize : 1 ≤ size) :
    (VisitsAll (each env lmdb schema now options size) (storedItems env lmdb schema now options)
      ↔ PagesFull (liveRow lmdb schema now false) size (itemEntries env lmdb schema options))
    ∧ VisitsAll (followPage env lmdb schema now options size)
        (storedItems env lmdb schema now options)
    ∧ (VisitsAll (eachFor env lmdb schema now options fname foreignId size)
          (storedChildren env lmdb schema now options fname foreignId)
        ↔ ∀ entry ∈ (childEntries env lmdb schema options fname foreignId).drop size,
            liveRow lmdb schema now true entry = none)
    ∧ (VisitsAll (followPageFor env lmdb schema now options fname foreignId size)
          (storedChildren env lmdb schema now options fname foreignId)
        ↔ ∀ entry ∈ (childEntries env lmdb schema options fname foreignId).drop size,
            liveRow lmdb schema now true entry = none) :=
  ⟨(cuts_page hlmdb hsize).visitsAll_byRow_iff hsize,
    (cuts_page hlmdb hsize).visitsAll_followOffsets hsize,
    (firstOnly_pageFor hlmdb).visitsAll_byRow_iff hsize,
    (firstOnly_pageFor hlmdb).visitsAll_followOffsets_iff⟩

/-! ## Credentials in pages of one -/

def defaultWs : Text := ofText "0dc6f45b-8f8d-40d2-a504-473544ee190b"
def consumerId : Text := ofText "4f1a4fe1-9b6e-4d4a-8b2e-93e0c1d1f5aa"

def keyauthCredentials : Schema where
  name := ofText "keyauth_credentials"
  primaryKey := [ofText "id"]
  fields :=
    [{ name := ofText "id", reference := none, unique := false, uniqueAcrossWs := false },
      { name := ofText "consumer", reference := some (ofText "consumers"), unique := false,
        uniqueAcrossWs := false },
      { name := ofText "key", reference := none, unique := true, uniqueAcrossWs := false }]
  workspaceable := true
  cacheKey := some [ofText "key"]
  ttl := true

def consumers : Schema where
  name := ofText "consumers"
  primaryKey := [ofText "id"]
  fields := [{ name := ofText "id", reference := none, unique := false, uniqueAcrossWs := false },
    { name := ofText "username", reference := none, unique := true, uniqueAcrossWs := false }]
  workspaceable := true
  cacheKey := none
  ttl := false

/-- The digests of the keys below. -/
def digests : List (Text × Text) :=
  [(ofText "key-1", ofText "be2974546978e3739e6d6da85c4be9f334ce32df2b9fd4b6ff1b55c0d57e9d44"),
    (ofText "key-2", ofText "7c36b0a9dedde119c75165957c6c9c187e65df1ee5db87c4c58ad503ad88cbe3"),
    (ofText "keyauth_credentials:key-1:::::0dc6f45b-8f8d-40d2-a504-473544ee190b", ofText "bf8755eefee844d7492ca342aa64cd91e1fe0718d43a8fe397ce5659c462d002"),
    (ofText "keyauth_credentials:key-2:::::0dc6f45b-8f8d-40d2-a504-473544ee190b", ofText "89461943a9574a7cc990a2af910fa0bed04d67f4b814464fda3201690d278cea")]

def credentialsEnv : Env where
  db := fun name => [keyauthCredentials, consumers].find? fun schema => schema.name = name
  sha256Hex := fun value => (digests.lookup value).getD []
  defaultWorkspace := defaultWs
  ctxWorkspace := none

def credential (id key : String) (ttl : Option Int) : Entity where
  fields := [(ofText "id", .text (ofText id)),
    (ofText "consumer", .foreign [(ofText "id", consumerId)]), (ofText "key", .text (ofText key))]
  wsId := some defaultWs
  ttl := ttl

/-- Two credentials of a consumer; the first one expires at 100. -/
def twoCredentials : Lmdb :=
  ((∅ : Lmdb).write
      ((insertEntityForTxn credentialsEnv keyauthCredentials.name
        (credential "1d5cb1a1-53c9-4d4b-9d8f-0c9b5c0c2a01" "key-1" (some 100)) .absent).getD
        [])).write
    ((insertEntityForTxn credentialsEnv keyauthCredentials.name
      (credential "2d5cb1a1-53c9-4d4b-9d8f-0c9b5c0c2a02" "key-2" none) .absent).getD [])

theorem twoCredentials_stored :
    WellFormed twoCredentials
    ∧ (∀ entry ∈ itemEntries credentialsEnv twoCredentials keyauthCredentials .absent,
        liveRow twoCredentials keyauthCredentials 99 false entry ≠ none)
    ∧ ¬ ∀ entry ∈ (childEntries credentialsEnv twoCredentials keyauthCredentials .absent
          (ofText "consumer") consumerId).drop 1,
        liveRow twoCredentials keyauthCredentials 99 true entry = none := by
  unfold twoCredentials credentialsEnv keyauthCredentials consumers digests credential defaultWs
    consumerId
  rw [ofText_eq_ofAscii]
  decide +kernel

theorem twoCredentials_wellFormed : WellFormed twoCredentials := twoCredentials_stored.1

theorem iteration_visits_two_credentials :
    VisitsAll (each credentialsEnv twoCredentials keyauthCredentials 99 .absent 1)
      (storedItems credentialsEnv twoCredentials keyauthCredentials 99 .absent) := by
  refine (iteration_visits_all_iff credentialsEnv twoCredentials twoCredentials_wellFormed
    keyauthCredentials 99 .absent (ofText "consumer") consumerId 1 (Nat.le_refl 1)).1.mpr ?_
  rintro n ⟨entry, hmem, hnone⟩
  exact absurd hnone (twoCredentials_stored.2.1 entry
    (List.mem_of_mem_drop (List.mem_of_mem_take hmem)))

/-- At 100 the first credential has expired, and a loop with pages of one
does not reach the second. Before, a loop over the consumer's credentials
ends after the first. -/
theorem iteration_misses_second_credential :
    ¬ VisitsAll (each credentialsEnv twoCredentials keyauthCredentials 100 .absent 1)
        (storedItems credentialsEnv twoCredentials keyauthCredentials 100 .absent)
    ∧ ¬ VisitsAll (eachFor credentialsEnv twoCredentials keyauthCredentials 99 .absent
          (ofText "consumer") consumerId 1)
        (storedChildren credentialsEnv twoCredentials keyauthCredentials 99 .absent
          (ofText "consumer") consumerId)
    ∧ ¬ VisitsAll (followPageFor credentialsEnv twoCredentials keyauthCredentials 99 .absent
          (ofText "consumer") consumerId 1)
        (storedChildren credentialsEnv twoCredentials keyauthCredentials 99 .absent
          (ofText "consumer") consumerId) := by
  have hchild := twoCredentials_stored.2.2
  refine ⟨fun hvisits => ?_, fun hvisits => ?_, fun hvisits => ?_⟩
  · have hfull := ((cuts_page twoCredentials_wellFormed Nat.one_pos).visitsAll_byRow_iff
      Nat.one_pos).mp hvisits
    revert hfull
    unfold twoCredentials credentialsEnv keyauthCredentials consumers digests credential defaultWs
    rw [ofText_eq_ofAscii]
    exact fun hfull => absurd (hfull 0) (by decide +kernel)
  · exact hchild (((firstOnly_pageFor twoCredentials_wellFormed).visitsAll_byRow_iff
      Nat.one_pos).mp hvisits)
  · exact hchild ((firstOnly_pageFor twoCredentials_wellFormed).visitsAll_followOffsets_iff.mp
      hvisits)

/-!
## Select — entities by primary key and by unique field

`select` looks the item key up; a query over all workspaces tries the
workspaces one after the other and is an error when none has the entity.
`select_by_field` follows the index, the cache key among the fields.
-/

variable (env lmdb now)

/-- The page size of an iteration that is given none. -/
def defaultPageSize : Nat := 1000

/-- A loop over `kong.db.workspaces:each()`. An iteration calls its iterator
at most once for each key, and twice more to return an error and end. -/
def eachWorkspace : List (Except String Entity) :=
  match env.db (ofText "workspaces") with
  | none => []
  | some schema =>
    (each env lmdb schema now .absent defaultPageSize (lmdb.entries.length + 2)).getD []

/-- `select` in all workspaces. -/
def selectGlobal (schema : Schema) (pk : Text) : List (Except String Entity) → Row
  | [] => .error "not found"
  | .error err :: _ => .error err
  | .ok workspace :: rest =>
    match selectByKey lmdb schema now
      (itemKey schema.name (Declarative.tostring (workspace.get (ofText "id"))) pk) with
    | .error err => .error err
    | .ok (some entity) => .ok (some entity)
    | .ok none => selectGlobal schema pk rest

def select (schema : Schema) (pk : Text → Option FieldValue) (options : WorkspaceOption) : Row :=
  let wsId := workspaceId env schema options
  let pk := pkString schema pk
  if wsId = globalWorkspaceTag then
    selectGlobal lmdb now schema pk (eachWorkspace env lmdb now)
  else selectByKey lmdb schema now (itemKey schema.name wsId pk)

/-- The string for the value of a unique field: of a foreign key, the
value `next` finds in its table. -/
def fieldString : FieldValue → Text
  | .foreign key => (key.head?.map Prod.snd).getD []
  | value => Declarative.tostring (some value)

def Schema.uniqueAcrossWs (schema : Schema) (field : Text) : Bool :=
  schema.fields.any fun fdata => fdata.name = field && fdata.uniqueAcrossWs

/-- `select_by_key` with an indirection. -/
def selectByIndex (schema : Schema) (key : Text) : Row :=
  match lmdb.get key with
  | some (.text actualKey) => selectByKey lmdb schema now actualKey
  -- no key is a serialized entity
  | some (.item _) => .ok none
  | none => .ok none

/-- A query over all workspaces is refused unless the field is unique
across them. -/
def selectByField (schema : Schema) (field : Text) (value : FieldValue)
    (options : WorkspaceOption) : Row :=
  let uniqueAcrossWs := Schema.uniqueAcrossWs schema field
  if options = .null ∧ uniqueAcrossWs = false then .error "assertion failed!"
  else
    let wsId := if uniqueAcrossWs || field = ofText "cache_key" then env.defaultWorkspace
      else workspaceId env schema options
    selectByIndex lmdb now schema
      (uniqueFieldKey env schema.name wsId field (fieldString value))

end KongGateway.Kong.Db.Off

import KongGateway.Lib.OrderedStore
import KongGateway.Kong.Clustering.ConfigHelper

/-!
# ConfigHash — what the hash of a configuration tells

Equal configurations have equal hashes, whatever the order in which their
keys are visited. The canonical text does not tell values apart that are
written alike: a value and the array with this one element, a number and
the string of its digits, an array and a string with semicolons. Values of
one shape, without semicolons in their strings, it tells apart.
-/

namespace KongGateway.Kong.Clustering.ConfigHelper

open Bytes

/-! ## How a value is written -/

section

variable {N : Type}

mutual

/-- The text of a value. -/
def written (numberText : N → Text) : Value N → Text
  | .null => ofText "/null/"
  | .bool b => ofText (if b then "true" else "false")
  | .number n => numberText n
  | .string s => s
  | .array items =>
    if items.isEmpty then ofText "\x7b\x7d"
    else if items.length ≤ 5 then [semicolon].intercalate (writtenItems numberText items)
    else (writtenItems numberText items).flatMap fun text => text ++ [semicolon]
  | .object fields =>
    if fields.isEmpty then ofText "\x7b\x7d"
    else (writtenFields numberText fields).flatMap fun field =>
      field.1 ++ [colon] ++ field.2 ++ [semicolon]

def writtenItems (numberText : N → Text) : List (Value N) → List Text
  | [] => []
  | item :: items => written numberText item :: writtenItems numberText items

def writtenFields (numberText : N → Text) : List (Text × Value N) → List (Text × Text)
  | [] => []
  | (k, value) :: fields => (k, written numberText value) :: writtenFields numberText fields

end

mutual

/-- Objects have their fields in the order of their keys. -/
def Ordered : Value N → Prop
  | .array items => OrderedItems items
  | .object fields => (fields.map Prod.fst).Pairwise (· < ·) ∧ OrderedFields fields
  | _ => True

def OrderedItems : List (Value N) → Prop
  | [] => True
  | item :: items => Ordered item ∧ OrderedItems items

def OrderedFields : List (Text × Value N) → Prop
  | [] => True
  | field :: fields => Ordered field.2 ∧ OrderedFields fields

end

end

/-! ## Writing into the buffer -/

/-- A step that appends a text to a short buffer. -/
def Puts (put : Text → Text) (text : Text) : Prop :=
  ∀ o, (o ++ text).length ≤ 1000000 → put o = o ++ text

theorem putJoined_eq {puts : List (Text → Text)} {texts : List Text}
    (h : List.Forall₂ Puts puts texts) : Puts (putJoined puts) ([semicolon].intercalate texts) := by
  induction h with
  | nil =>
    intro o _
    simp [putJoined]
  | @cons put text puts texts hput hrest ih =>
    intro o hlen
    cases hrest with
    | nil =>
      simp only [List.intercalate_singleton] at hlen ⊢
      exact hput o hlen
    | @cons put' text' puts texts hput' hrest =>
      rw [List.intercalate_cons_cons] at hlen ⊢
      simp only [List.append_assoc, List.length_append] at hlen ih
      rw [putJoined, hput o (by simp only [List.length_append]; omega), ih]
      · simp
      · simp only [List.length_append]
        omega
      · simp

theorem putAll_eq {puts : List (Text → Text)} {texts : List Text}
    (h : List.Forall₂ Puts puts texts) :
    Puts (putAll puts) (texts.flatMap fun text => text ++ [semicolon]) := by
  induction h with
  | nil =>
    intro o _
    simp [putAll]
  | cons hput _ ih =>
    intro o hlen
    simp only [List.flatMap_cons, List.append_assoc, List.length_append] at hlen
    rw [putAll, hput o (by simp only [List.length_append]; omega), ih]
    · simp
    · simp only [List.length_append]
      omega

theorem putFields_eq {puts : List (Text × (Text → Text))} {texts : List (Text × Text)}
    (h : List.Forall₂ (fun put text => put.1 = text.1 ∧ Puts put.2 text.2
      ∧ puts.lookup text.1 = some put.2) puts texts) :
    Puts (putFields puts (texts.map Prod.fst))
      (texts.flatMap fun field => field.1 ++ [colon] ++ field.2 ++ [semicolon]) := by
  suffices hall : ∀ l : List (Text × (Text → Text)),
      List.Forall₂ (fun put text => put.1 = text.1 ∧ Puts put.2 text.2
        ∧ puts.lookup text.1 = some put.2) l texts →
      Puts (putFields puts (texts.map Prod.fst))
        (texts.flatMap fun field => field.1 ++ [colon] ++ field.2 ++ [semicolon]) from hall puts h
  clear h
  intro l h
  induction h with
  | nil =>
    intro o _
    simp [putFields]
  | @cons put text l texts hput _ ih =>
    obtain ⟨-, hputs, hlookup⟩ := hput
    intro o hlen
    simp only [List.flatMap_cons, List.length_append] at hlen
    rw [List.map_cons, putFields, hlookup, Option.getD_some,
      hputs _ (by simp only [List.length_append]; omega), ih]
    · simp
    · simp only [List.length_append]
      omega

theorem sortKeys_pairs {keys visited : List Text} (hperm : visited.Perm keys)
    (hkeys : keys.Pairwise (· < ·)) : sortKeys visited = keys := by
  have hsorted : (sortKeys visited).Pairwise fun a b => a ≤ b :=
    List.pairwise_mergeSort' (fun a b : Text => a ≤ b) visited
  refine ((List.mergeSort_perm visited _).trans hperm).eq_of_pairwise
    (fun a b _ _ hab hba => le_antisymm hab hba) hsorted ?_
  exact hkeys.imp fun hab => le_of_lt hab

section

variable {N : Type} {env : Env N}

theorem shorten_of_short {o text : Text} (h : (o ++ text).length ≤ 1000000) :
    shorten env o = o := by
  unfold shorten
  rw [List.length_append] at h
  exact if_neg (by omega)

theorem keys_writtenFields (fields : List (Text × Value N)) :
    (writtenFields env.numberText fields).map Prod.fst = fields.map Prod.fst := by
  induction fields with
  | nil => rfl
  | cons field fields ih => simp [writtenFields, ih]

theorem keys_fieldPuts (fields : List (Text × Value N)) :
    (fieldPuts env fields).map Prod.fst = fields.map Prod.fst := by
  induction fields with
  | nil => rfl
  | cons field fields ih => simp [fieldPuts, ih]

theorem lookup_of_nodup {l : List (Text × (Text → Text))} (h : (l.map Prod.fst).Nodup)
    {entry : Text × (Text → Text)} (hentry : entry ∈ l) : l.lookup entry.1 = some entry.2 := by
  induction l with
  | nil => cases hentry
  | cons a l ih =>
    obtain ⟨hnot, hrest⟩ := List.nodup_cons.mp h
    rcases List.mem_cons.mp hentry with rfl | hentry
    · rw [List.lookup_cons, beq_self_eq_true]
    · have hne : entry.1 ≠ a.1 := fun heq => hnot (heq ▸ List.mem_map_of_mem hentry)
      rw [List.lookup_cons, beq_false_of_ne hne]
      exact ih hrest hentry

theorem forall₂_lookup {puts : List (Text × (Text → Text))} {texts : List (Text × Text)}
    (hnodup : (puts.map Prod.fst).Nodup)
    (h : List.Forall₂ (fun put text => put.1 = text.1 ∧ Puts put.2 text.2) puts texts) :
    List.Forall₂ (fun put text => put.1 = text.1 ∧ Puts put.2 text.2
      ∧ puts.lookup text.1 = some put.2) puts texts := by
  refine List.forall₂_iff_zip.mpr ⟨h.length_eq, fun {put text} hmem => ?_⟩
  obtain ⟨hkey, hputs⟩ := List.forall₂_zip h hmem
  refine ⟨hkey, hputs, ?_⟩
  rw [← hkey]
  exact lookup_of_nodup hnodup (List.of_mem_zip hmem).1

mutual

/-- `to_sorted_string` appends the text of a value. -/
theorem puts_toSortedString (hpairs : ∀ keys, (env.pairs keys).Perm keys) :
    (value : Value N) → Ordered value →
      Puts (toSortedString env value) (written env.numberText value)
  | .null, _ => by
    intro o hlen
    rw [toSortedString, shorten_of_short hlen, written]
  | .bool b, _ => by
    intro o hlen
    rw [toSortedString, shorten_of_short hlen, written]
  | .number n, _ => by
    intro o hlen
    rw [toSortedString, shorten_of_short hlen, written]
  | .string s, _ => by
    intro o hlen
    rw [toSortedString, shorten_of_short hlen, written]
  | .array items, hordered => by
    have hitems := puts_elementPuts hpairs items (by simpa [Ordered] using hordered)
    intro o hlen
    rw [toSortedString, shorten_of_short hlen]
    rw [written] at hlen ⊢
    split
    · rfl
    · rename_i hempty
      rw [if_neg hempty] at hlen
      split
      · rename_i hcount
        rw [if_pos hcount] at hlen
        exact putJoined_eq hitems o hlen
      · rename_i hcount
        rw [if_neg hcount] at hlen
        exact putAll_eq hitems o hlen
  | .object fields, hordered => by
    obtain ⟨hkeys, hrest⟩ : (fields.map Prod.fst).Pairwise (· < ·) ∧ OrderedFields fields := by
      simpa [Ordered] using hordered
    have hfields := puts_fieldPuts hpairs fields hrest
    have hnodup : ((fieldPuts env fields).map Prod.fst).Nodup := by
      rw [keys_fieldPuts]
      exact hkeys.imp fun hlt => ne_of_lt hlt
    intro o hlen
    rw [toSortedString, shorten_of_short hlen]
    rw [written] at hlen ⊢
    split
    · rfl
    · rename_i hempty
      rw [if_neg hempty] at hlen
      rw [sortKeys_pairs (hpairs _) hkeys, ← keys_writtenFields]
      exact putFields_eq (forall₂_lookup hnodup hfields) o hlen

theorem puts_elementPuts (hpairs : ∀ keys, (env.pairs keys).Perm keys) :
    (items : List (Value N)) → OrderedItems items →
      List.Forall₂ Puts (elementPuts env items) (writtenItems env.numberText items)
  | [], _ => .nil
  | item :: items, hordered => by
    obtain ⟨hitem, hitems⟩ : Ordered item ∧ OrderedItems items := by
      simpa [OrderedItems] using hordered
    exact .cons (puts_toSortedString hpairs item hitem) (puts_elementPuts hpairs items hitems)

theorem puts_fieldPuts (hpairs : ∀ keys, (env.pairs keys).Perm keys) :
    (fields : List (Text × Value N)) → OrderedFields fields →
      List.Forall₂ (fun put text => put.1 = text.1 ∧ Puts put.2 text.2) (fieldPuts env fields)
        (writtenFields env.numberText fields)
  | [], _ => .nil
  | (k, value) :: fields, hordered => by
    obtain ⟨hvalue, hfields⟩ : Ordered value ∧ OrderedFields fields := by
      simpa [OrderedFields] using hordered
    exact .cons ⟨rfl, puts_toSortedString hpairs value hvalue⟩
      (puts_fieldPuts hpairs fields hfields)

end

/-! ## The parts of a configuration -/

/-- The texts that the hash is made from: of the entities that have a hash
of their own, if they are there, and of the rest. -/
def parts (numberText : N → Text) (config : Value N) : List (Option Text) :=
  hashedTypes.map (fun k => (config.get k).map (written numberText))
    ++ [some (written numberText config.rest)]

/-- A table whose texts are not longer than the buffer may be. -/
structure ConfigOk (numberText : N → Text) (config : Value N) : Prop where
  table : config.isTable = true
  ordered : Ordered config
  short : ∀ text, some text ∈ parts numberText config → text.length ≤ 1000000

def hashPart (env : Env N) : Option Text → Text
  | none => declarativeEmptyConfigHash
  | some text => env.md5 text

/-- The text that the digest of the whole is made from. -/
def joinedHashes (env : Env N) (config : Value N) : Text :=
  (parts env.numberText config).flatMap (hashPart env)

theorem orderedFields_of_mem {fields : List (Text × Value N)} (h : OrderedFields fields)
    {field : Text × Value N} (hfield : field ∈ fields) : Ordered field.2 := by
  induction fields with
  | nil => cases hfield
  | cons other fields ih =>
    rw [OrderedFields] at h
    rcases List.mem_cons.mp hfield with rfl | hfield
    · exact h.1
    · exact ih h.2 hfield

theorem orderedFields_of_forall {fields : List (Text × Value N)}
    (h : ∀ field ∈ fields, Ordered field.2) : OrderedFields fields := by
  induction fields with
  | nil => simp [OrderedFields]
  | cons other fields ih =>
    rw [OrderedFields]
    exact ⟨h other List.mem_cons_self, ih fun field hfield =>
      h field (List.mem_cons_of_mem other hfield)⟩

/-- An object as a store. -/
def store (fields : List (Text × Value N)) (h : Ordered (.object fields)) :
    OrderedStore Text (Value N) where
  entries := fields
  sorted := by
    rw [Ordered] at h
    exact List.pairwise_map.mp h.1

theorem ordered_of_store (s : OrderedStore Text (Value N))
    (h : ∀ entry ∈ s.entries, Ordered entry.2) : Ordered (.object s.entries) := by
  rw [Ordered]
  exact ⟨List.pairwise_map.mpr s.sorted, orderedFields_of_forall h⟩

theorem get_object (s : OrderedStore Text (Value N)) (k : Text) :
    (Value.object s.entries).get k = s.get k := by
  rw [Value.get, OrderedStore.get]
  induction s.entries with
  | nil => rfl
  | cons entry entries ih =>
    obtain ⟨key, value⟩ := entry
    by_cases hk : k = key
    · simp [hk]
    · have hk' : ¬ key = k := fun h => hk h.symm
      rw [List.lookup_cons, beq_false_of_ne hk, List.find?_cons_of_neg (by simpa using hk'), ih]

theorem set_object (s : OrderedStore Text (Value N)) (k : Text) (value : Option (Value N)) :
    (Value.object s.entries).set k value = .object (s.set k value).entries := by
  rw [Value.set]
  cases value with
  | none => simp [setField, OrderedStore.set, OrderedStore.restrict]
  | some value =>
    simp only [setField, OrderedStore.set]
    congr!

theorem rest_object (s : OrderedStore Text (Value N)) :
    (Value.object s.entries).rest
      = .object (s.write (hashedTypes.map fun k => (k, none))).entries := by
  unfold Value.rest hashedTypes
  simp only [List.foldl_cons, List.foldl_nil, List.map_cons, List.map_nil, OrderedStore.write_cons,
    OrderedStore.write_nil, set_object]

theorem calculateTableHash_unchanged {config : Value N} (h : Ordered config) :
    (calculateTableHash env config).2 = config := by
  cases config with
  | object fields =>
    have hobject : Value.object fields = .object (store fields h).entries := rfl
    rw [hobject]
    simp only [calculateTableHash, rest_object, set_object, get_object]
    refine congrArg (fun s : OrderedStore Text (Value N) => Value.object s.entries) ?_
    refine OrderedStore.ext fun k => ?_
    simp only [hashedTypes, List.map_cons, List.map_nil, OrderedStore.write_cons,
      OrderedStore.write_nil, OrderedStore.get_set]
    grind
  | _ => rfl

theorem calculateHash_eq (hpairs : ∀ keys, (env.pairs keys).Perm keys) {value : Value N}
    (hordered : Ordered value) (hshort : (written env.numberText value).length ≤ 1000000) :
    calculateHash env (some value) = hashPart env (some (written env.numberText value)) := by
  rw [calculateHash, hashPart, puts_toSortedString hpairs value hordered [] hshort]
  rfl

theorem ordered_get {config value : Value N} (h : Ordered config) {k : Text}
    (hget : config.get k = some value) : Ordered value := by
  cases config with
  | object fields =>
    rw [Ordered] at h
    obtain ⟨l, r, rfl, -⟩ := List.lookup_eq_some_iff.mp hget
    exact orderedFields_of_mem h.2 (List.mem_append_right l List.mem_cons_self)
  | _ => cases hget

theorem mem_of_mem_write_none {s : OrderedStore Text (Value N)} {ks : List Text}
    {entry : Text × Value N}
    (h : entry ∈ (s.write (ks.map fun k => (k, none))).entries) : entry ∈ s.entries := by
  induction ks generalizing s with
  | nil => exact h
  | cons k ks ih =>
    rw [List.map_cons, OrderedStore.write_cons] at h
    exact List.mem_of_mem_filter (ih h)

theorem ordered_rest {config : Value N} (h : Ordered config) : Ordered config.rest := by
  cases config with
  | object fields =>
    have hobject : Value.object fields = .object (store fields h).entries := rfl
    rw [hobject, rest_object]
    refine ordered_of_store _ fun entry hentry => ?_
    have hmem := mem_of_mem_write_none hentry
    rw [Ordered] at h
    exact orderedFields_of_mem h.2 hmem
  | _ => exact h

theorem calculateHash_get (hpairs : ∀ keys, (env.pairs keys).Perm keys) {config : Value N}
    (h : ConfigOk env.numberText config) {k : Text} (hk : k ∈ hashedTypes) :
    calculateHash env (config.get k)
      = hashPart env ((config.get k).map (written env.numberText)) := by
  cases hvalue : config.get k with
  | none => rfl
  | some value =>
    refine calculateHash_eq hpairs (ordered_get h.ordered hvalue) (h.short _ ?_)
    refine List.mem_append_left _ (List.mem_map.mpr ⟨k, hk, ?_⟩)
    rw [hvalue, Option.map_some]

theorem calculateHash_rest (hpairs : ∀ keys, (env.pairs keys).Perm keys) {config : Value N}
    (h : ConfigOk env.numberText config) :
    calculateHash env (some config.rest)
      = hashPart env (some (written env.numberText config.rest)) :=
  calculateHash_eq hpairs (ordered_rest h.ordered)
    (h.short _ (List.mem_append_right _ List.mem_cons_self))

/-- The hash of a configuration is the digest of the joined hashes of its
parts. -/
theorem calculateTableHash_config (hpairs : ∀ keys, (env.pairs keys).Perm keys) {config : Value N}
    (h : ConfigOk env.numberText config) :
    (calculateTableHash env config).1.config = env.md5 (joinedHashes env config) := by
  have hget : ∀ k ∈ hashedTypes, calculateHash env (config.get k)
      = hashPart env ((config.get k).map (written env.numberText)) :=
    fun k hk => calculateHash_get hpairs h hk
  have hrest := calculateHash_rest hpairs h
  simp only [calculateTableHash, joinedHashes, parts, hrest, hashedTypes, List.map_cons,
    List.map_nil, List.cons_append, List.nil_append, List.flatMap_cons, List.flatMap_nil,
    List.append_nil, List.append_assoc]
  rw [hget _ (by simp [hashedTypes]), hget _ (by simp [hashedTypes]),
    hget _ (by simp [hashedTypes]), hget _ (by simp [hashedTypes]), hget _ (by simp [hashedTypes])]

/-! ## Configurations with the same hash -/

/-- The texts that are digested for a configuration. -/
def digested (env : Env N) (config : Value N) : List Text :=
  joinedHashes env config :: (parts env.numberText config).filterMap id

/-- Digests are of one length, none is the hash of nothing, and the texts
of two configurations do not collide. -/
structure NoCollision (env : Env N) (config config' : Value N) : Prop where
  length : ∀ text, (env.md5 text).length = declarativeEmptyConfigHash.length
  empty : ∀ text ∈ digested env config ++ digested env config',
    env.md5 text ≠ declarativeEmptyConfigHash
  inj : ∀ text ∈ digested env config ++ digested env config',
    ∀ text' ∈ digested env config ++ digested env config',
      env.md5 text = env.md5 text' → text = text'

theorem hashPart_inj {texts : List Text}
    (hempty : ∀ text ∈ texts, env.md5 text ≠ declarativeEmptyConfigHash)
    (hinj : ∀ text ∈ texts, ∀ text' ∈ texts, env.md5 text = env.md5 text' → text = text')
    {part part' : Option Text} (hpart : ∀ text ∈ part, text ∈ texts)
    (hpart' : ∀ text ∈ part', text ∈ texts) (h : hashPart env part = hashPart env part') :
    part = part' := by
  cases part with
  | none =>
    cases part' with
    | none => rfl
    | some text' => exact absurd h.symm (hempty text' (hpart' text' rfl))
  | some text =>
    cases part' with
    | none => exact absurd h (hempty text (hpart text rfl))
    | some text' => exact congrArg some (hinj text (hpart text rfl) text' (hpart' text' rfl) h)

theorem flatMap_hashPart_inj {texts : List Text}
    (hlength : ∀ text, (env.md5 text).length = declarativeEmptyConfigHash.length)
    (hempty : ∀ text ∈ texts, env.md5 text ≠ declarativeEmptyConfigHash)
    (hinj : ∀ text ∈ texts, ∀ text' ∈ texts, env.md5 text = env.md5 text' → text = text')
    {l l' : List (Option Text)} (hl : ∀ text, some text ∈ l → text ∈ texts)
    (hl' : ∀ text, some text ∈ l' → text ∈ texts) (hlen : l.length = l'.length)
    (h : l.flatMap (hashPart env) = l'.flatMap (hashPart env)) : l = l' := by
  induction l generalizing l' with
  | nil => exact (List.length_eq_zero_iff.mp hlen.symm).symm
  | cons part l ih =>
    cases l' with
    | nil => cases hlen
    | cons part' l' =>
      have hsize : ∀ part : Option Text,
          (hashPart env part).length = declarativeEmptyConfigHash.length := by
        intro part
        cases part with
        | none => rfl
        | some text => exact hlength text
      rw [List.flatMap_cons, List.flatMap_cons] at h
      obtain ⟨hhead, htail⟩ := List.append_inj h ((hsize part).trans (hsize part').symm)
      have hpart := hashPart_inj hempty hinj (fun text htext => hl text (by simp [htext.symm]))
        (fun text htext => hl' text (by simp [htext.symm])) hhead
      rw [hpart, ih (fun text htext => hl text (List.mem_cons_of_mem part htext))
        (fun text htext => hl' text (List.mem_cons_of_mem part' htext))
        (Nat.succ.inj hlen) htail]

theorem config_eq_iff (hpairs : ∀ keys, (env.pairs keys).Perm keys) {config config' : Value N}
    (h : ConfigOk env.numberText config) (h' : ConfigOk env.numberText config')
    (hmd5 : NoCollision env config config') :
    (calculateTableHash env config).1.config = (calculateTableHash env config').1.config
      ↔ parts env.numberText config = parts env.numberText config' := by
  rw [calculateTableHash_config hpairs h, calculateTableHash_config hpairs h']
  constructor
  · intro heq
    have hjoined := hmd5.inj _ (List.mem_append_left _ List.mem_cons_self) _
      (List.mem_append_right _ List.mem_cons_self) heq
    refine flatMap_hashPart_inj hmd5.length hmd5.empty hmd5.inj (fun text htext => ?_)
      (fun text htext => ?_) (by simp [parts]) hjoined
    · exact List.mem_append_left _ (List.mem_cons_of_mem _ (by simpa using htext))
    · exact List.mem_append_right _ (List.mem_cons_of_mem _ (by simpa using htext))
  · intro heq
    rw [joinedHashes, joinedHashes, heq]

/-! ## Values that are written alike -/

/-- Values that are written alike: an array of one element and the element;
null, a boolean, a number, an empty array or object and the string that
spells it; an array of strings and one string with semicolons, an object of
strings and one string with colons and semicolons; and what follows from
these inside arrays and objects. -/
inductive Alike (numberText : N → Text) : Value N → Value N → Prop where
  | refl (v : Value N) : Alike numberText v v
  | symm {v w : Value N} (h : Alike numberText v w) : Alike numberText w v
  | trans {v w x : Value N} (h : Alike numberText v w) (h' : Alike numberText w x) :
      Alike numberText v x
  | singleton (v : Value N) : Alike numberText (.array [v]) v
  | null : Alike numberText .null (.string (ofText "/null/"))
  | bool (b : Bool) : Alike numberText (.bool b) (.string (ofText (if b then "true" else "false")))
  | number (n : N) : Alike numberText (.number n) (.string (numberText n))
  | emptyArray : Alike numberText (.array []) (.string (ofText "\x7b\x7d"))
  | emptyObject : Alike numberText (.object []) (.string (ofText "\x7b\x7d"))
  | strings {texts : List Text} (hne : texts ≠ []) (hcount : texts.length ≤ 5) :
      Alike numberText (.array (texts.map .string)) (.string ([semicolon].intercalate texts))
  | manyStrings {texts : List Text} (hcount : 5 < texts.length) :
      Alike numberText (.array (texts.map .string))
        (.string (texts.flatMap fun text => text ++ [semicolon]))
  | fields {texts : List (Text × Text)} (hne : texts ≠ []) :
      Alike numberText (.object (texts.map fun field => (field.1, .string field.2)))
        (.string (texts.flatMap fun field => field.1 ++ [colon] ++ field.2 ++ [semicolon]))
  | item {v w : Value N} (l r : List (Value N)) (h : Alike numberText v w) :
      Alike numberText (.array (l ++ v :: r)) (.array (l ++ w :: r))
  | field {v w : Value N} (l r : List (Text × Value N)) (k : Text) (h : Alike numberText v w) :
      Alike numberText (.object (l ++ (k, v) :: r)) (.object (l ++ (k, w) :: r))

section

variable {numberText : N → Text}

theorem writtenItems_eq_map (items : List (Value N)) :
    writtenItems numberText items = items.map (written numberText) := by
  induction items with
  | nil => rfl
  | cons item items ih => rw [writtenItems, ih, List.map_cons]

theorem writtenFields_eq_map (fields : List (Text × Value N)) :
    writtenFields numberText fields
      = fields.map fun field => (field.1, written numberText field.2) := by
  induction fields with
  | nil => rfl
  | cons field fields ih =>
    obtain ⟨k, value⟩ := field
    rw [writtenFields, ih, List.map_cons]

theorem writtenItems_strings (texts : List Text) :
    writtenItems numberText (texts.map .string) = texts := by
  rw [writtenItems_eq_map, List.map_map]
  exact (List.map_congr_left fun text _ => by simp [written]).trans (List.map_id texts)

theorem writtenFields_strings (texts : List (Text × Text)) :
    writtenFields numberText (texts.map fun field => (field.1, .string field.2)) = texts := by
  rw [writtenFields_eq_map, List.map_map]
  exact (List.map_congr_left fun field _ => by simp [written]).trans (List.map_id texts)

theorem Alike.written_eq {v w : Value N} (h : Alike numberText v w) :
    written numberText v = written numberText w := by
  induction h with
  | refl v => rfl
  | symm _ ih => exact ih.symm
  | trans _ _ ih ih' => exact ih.trans ih'
  | singleton v => simp [written, writtenItems]
  | null => simp [written]
  | bool b => simp [written]
  | number n => simp [written]
  | emptyArray => simp [written]
  | emptyObject => simp [written]
  | strings hne hcount => simp [written, writtenItems_strings, hne, hcount]
  | @manyStrings texts hcount =>
    have hne : texts ≠ [] := List.ne_nil_of_length_pos (by omega)
    simp [written, writtenItems_strings, hne, Nat.not_le.mpr hcount]
  | fields hne => simp [written, writtenFields_strings, hne]
  | item l r _ ih => simp [written, writtenItems_eq_map, ih]
  | field l r k _ ih => simp [written, writtenFields_eq_map, ih]

mutual

theorem alike_written : (value : Value N) →
    Alike numberText value (.string (written numberText value))
  | .null => by
    rw [written]
    exact .null
  | .bool b => by
    rw [written]
    exact .bool b
  | .number n => by
    rw [written]
    exact .number n
  | .string s => by
    rw [written]
    exact .refl _
  | .array items => by
    rw [written]
    split
    · rename_i hempty
      rw [List.isEmpty_iff.mp hempty]
      exact .emptyArray
    · rename_i hempty
      have hlength : (writtenItems numberText items).length = items.length := by
        rw [writtenItems_eq_map, List.length_map]
      have hne : writtenItems numberText items ≠ [] := by
        rw [writtenItems_eq_map]
        simpa using hempty
      refine .trans (alike_writtenItems items []) ?_
      split
      · exact .strings hne (by omega)
      · exact .manyStrings (by omega)
  | .object fields => by
    rw [written]
    split
    · rename_i hempty
      rw [List.isEmpty_iff.mp hempty]
      exact .emptyObject
    · rename_i hempty
      refine .trans (alike_writtenFields fields []) (.fields ?_)
      rw [writtenFields_eq_map]
      simpa using hempty

theorem alike_writtenItems : (items l : List (Value N)) →
    Alike numberText (.array (l ++ items))
      (.array (l ++ (writtenItems numberText items).map .string))
  | [], _ => .refl _
  | item :: items, l => by
    refine .trans (.item l items (alike_written item)) ?_
    have hrest := alike_writtenItems items (l ++ [.string (written numberText item)])
    rwa [List.append_assoc, List.append_assoc] at hrest

theorem alike_writtenFields : (fields l : List (Text × Value N)) →
    Alike numberText (.object (l ++ fields))
      (.object (l ++ (writtenFields numberText fields).map fun field => (field.1, .string field.2)))
  | [], _ => .refl _
  | (k, value) :: fields, l => by
    refine .trans (.field l fields k (alike_written value)) ?_
    have hrest := alike_writtenFields fields (l ++ [(k, .string (written numberText value))])
    rwa [List.append_assoc, List.append_assoc] at hrest

end

theorem written_eq_iff {v w : Value N} :
    written numberText v = written numberText w ↔ Alike numberText v w :=
  ⟨fun h => .trans (alike_written v) (h ▸ .symm (alike_written w)), Alike.written_eq⟩

end

mutual

/-- Values of one shape, in which strings and numbers that may differ have
no semicolons, and different numbers are written differently. -/
def SameShape (numberText : N → Text) : Value N → Value N → Prop
  | .null, .null => True
  | .bool _, .bool _ => True
  | .number n, .number n' =>
      semicolon ∉ numberText n ∧ semicolon ∉ numberText n' ∧ (numberText n = numberText n' → n = n')
  | .string s, .string s' => semicolon ∉ s ∧ semicolon ∉ s'
  | .array items, .array items' => SameShapeItems numberText items items'
  | .object fields, .object fields' => SameShapeFields numberText fields fields'
  | _, _ => False

def SameShapeItems (numberText : N → Text) : List (Value N) → List (Value N) → Prop
  | [], [] => True
  | item :: items, item' :: items' =>
      SameShape numberText item item' ∧ SameShapeItems numberText items items'
  | _, _ => False

def SameShapeFields (numberText : N → Text) :
    List (Text × Value N) → List (Text × Value N) → Prop
  | [], [] => True
  | (k, value) :: fields, (k', value') :: fields' =>
      k = k' ∧ SameShape numberText value value' ∧ SameShapeFields numberText fields fields'
  | _, _ => False

end

section

variable {numberText : N → Text}

theorem sameShapeItems_length {items items' : List (Value N)}
    (h : SameShapeItems numberText items items') : items.length = items'.length := by
  induction items generalizing items' with
  | nil =>
    cases items' with
    | nil => rfl
    | cons item' items' => simp [SameShapeItems] at h
  | cons item items ih =>
    cases items' with
    | nil => simp [SameShapeItems] at h
    | cons item' items' =>
      rw [SameShapeItems] at h
      rw [List.length_cons, List.length_cons, ih h.2]

theorem intercalate_semicolon {texts : List Text} (h : texts ≠ []) (r : Text) :
    [semicolon].intercalate texts ++ semicolon :: r
      = (texts.flatMap fun text => text ++ [semicolon]) ++ r := by
  induction texts with
  | nil => exact absurd rfl h
  | cons text texts ih =>
    cases texts with
    | nil => simp
    | cons text' texts =>
      rw [List.intercalate_cons_cons, List.flatMap_cons, List.append_assoc, List.append_assoc,
        ih (List.cons_ne_nil _ _), List.append_assoc, List.append_assoc]

theorem written_array {items : List (Value N)} (h : items ≠ []) (r : Text) :
    written numberText (.array items) ++ semicolon :: r
      = ((writtenItems numberText items).flatMap fun text => text ++ [semicolon])
        ++ if items.length ≤ 5 then r else semicolon :: r := by
  rw [written, if_neg (by simpa using h)]
  split
  · exact intercalate_semicolon (by simpa [writtenItems_eq_map] using h) r
  · rfl

mutual

theorem eq_of_written : (v w : Value N) → SameShape numberText v w → ∀ {r r' : Text},
    written numberText v ++ semicolon :: r = written numberText w ++ semicolon :: r' →
      v = w ∧ r = r'
  | .null, w, h => by
    intro heq
    cases w with
    | null => exact ⟨rfl, (List.cons.inj (List.append_cancel_left heq)).2⟩
    | _ => simp [SameShape] at h
  | .bool b, w, h => by
    intro heq
    cases w with
    | bool b' =>
      rw [written, written] at heq
      have hsemicolon : ∀ b : Bool, semicolon ∉ ofText (if b then "true" else "false") := by
        decide
      obtain ⟨htext, hrest⟩ := append_sep_inj (hsemicolon b) (hsemicolon b') heq
      have hbool : ∀ b b' : Bool, ofText (if b then "true" else "false")
          = ofText (if b' then "true" else "false") → b = b' := by
        decide
      exact ⟨congrArg _ (hbool b b' htext), hrest⟩
    | _ => simp [SameShape] at h
  | .number n, w, h => by
    intro heq
    cases w with
    | number n' =>
      rw [SameShape] at h
      rw [written, written] at heq
      obtain ⟨htext, hrest⟩ := append_sep_inj h.1 h.2.1 heq
      exact ⟨congrArg _ (h.2.2 htext), hrest⟩
    | _ => simp [SameShape] at h
  | .string s, w, h => by
    intro heq
    cases w with
    | string s' =>
      rw [SameShape] at h
      rw [written, written] at heq
      obtain ⟨htext, hrest⟩ := append_sep_inj h.1 h.2 heq
      exact ⟨congrArg _ htext, hrest⟩
    | _ => simp [SameShape] at h
  | .array items, w, h => by
    intro heq
    cases w with
    | array items' =>
      rw [SameShape] at h
      have hlength := sameShapeItems_length h
      by_cases hempty : items = []
      · obtain rfl : items' = [] := by simpa [hempty] using hlength.symm
        rw [hempty] at heq ⊢
        exact ⟨rfl, (List.cons.inj (List.append_cancel_left heq)).2⟩
      · have hempty' : items' ≠ [] := fun hnil => hempty (by simpa [hnil] using hlength)
        rw [written_array hempty, written_array hempty'] at heq
        obtain ⟨rfl, hrest⟩ := eq_of_writtenItems items items' h heq
        refine ⟨rfl, ?_⟩
        split at hrest
        · exact hrest
        · exact (List.cons.inj hrest).2
    | _ => simp [SameShape] at h
  | .object fields, w, h => by
    intro heq
    cases w with
    | object fields' =>
      rw [SameShape] at h
      rw [written, written] at heq
      cases fields with
      | nil =>
        cases fields' with
        | nil => exact ⟨rfl, (List.cons.inj (List.append_cancel_left heq)).2⟩
        | cons field' fields' => simp [SameShapeFields] at h
      | cons field fields =>
        cases fields' with
        | nil => simp [SameShapeFields] at h
        | cons field' fields' =>
          obtain ⟨hfields, hrest⟩ := eq_of_writtenFields (field :: fields) (field' :: fields') h heq
          exact ⟨congrArg _ hfields, (List.cons.inj hrest).2⟩
    | _ => simp [SameShape] at h

theorem eq_of_writtenItems : (items items' : List (Value N)) →
    SameShapeItems numberText items items' → ∀ {r r' : Text},
    ((writtenItems numberText items).flatMap fun text => text ++ [semicolon]) ++ r
        = ((writtenItems numberText items').flatMap fun text => text ++ [semicolon]) ++ r' →
      items = items' ∧ r = r'
  | [], [], _ => fun heq => ⟨rfl, heq⟩
  | [], _ :: _, h => by simp [SameShapeItems] at h
  | _ :: _, [], h => by simp [SameShapeItems] at h
  | item :: items, item' :: items', h => by
    intro heq
    rw [SameShapeItems] at h
    simp only [writtenItems, List.flatMap_cons, List.append_assoc, List.singleton_append] at heq
    obtain ⟨hitem, hrest⟩ := eq_of_written item item' h.1 heq
    obtain ⟨hitems, hrest⟩ := eq_of_writtenItems items items' h.2 hrest
    exact ⟨by rw [hitem, hitems], hrest⟩

theorem eq_of_writtenFields : (fields fields' : List (Text × Value N)) →
    SameShapeFields numberText fields fields' → ∀ {r r' : Text},
    ((writtenFields numberText fields).flatMap fun field =>
          field.1 ++ [colon] ++ field.2 ++ [semicolon]) ++ r
        = ((writtenFields numberText fields').flatMap fun field =>
          field.1 ++ [colon] ++ field.2 ++ [semicolon]) ++ r' →
      fields = fields' ∧ r = r'
  | [], [], _ => fun heq => ⟨rfl, heq⟩
  | [], _ :: _, h => by simp [SameShapeFields] at h
  | _ :: _, [], h => by simp [SameShapeFields] at h
  | (k, value) :: fields, (k', value') :: fields', h => by
    intro heq
    rw [SameShapeFields] at h
    obtain ⟨rfl, hvalue, hfields⟩ := h
    have hcons : ∀ (value text rest : Text),
        (k ++ [colon] ++ value ++ [semicolon] ++ text) ++ rest
          = k ++ [colon] ++ (value ++ semicolon :: (text ++ rest)) := by
      simp
    rw [writtenFields, writtenFields, List.flatMap_cons, List.flatMap_cons, hcons, hcons] at heq
    obtain ⟨rfl, hrest⟩ := eq_of_written value value' hvalue (List.append_cancel_left heq)
    obtain ⟨rfl, htail⟩ := eq_of_writtenFields fields fields' hfields hrest
    exact ⟨rfl, htail⟩

end

theorem eq_of_alike {v w : Value N} (hshape : SameShape numberText v w)
    (halike : Alike numberText v w) : v = w := by
  have heq : written numberText v ++ [semicolon] = written numberText w ++ [semicolon] := by
    rw [halike.written_eq]
  exact (eq_of_written v w hshape heq).1

end

/-! ## Parts that are written alike -/

/-- The entities with a hash of their own, and the rest, are related one by
one. -/
def EachPart (related : Value N → Value N → Prop) (config config' : Value N) : Prop :=
  (∀ k ∈ hashedTypes, Option.Rel related (config.get k) (config'.get k))
    ∧ related config.rest config'.rest

section

variable {numberText : N → Text}

theorem map_written_eq_iff {value value' : Option (Value N)} :
    value.map (written numberText) = value'.map (written numberText)
      ↔ Option.Rel (Alike numberText) value value' := by
  cases value with
  | none =>
    cases value' with
    | none => exact ⟨fun _ => .none, fun _ => rfl⟩
    | some w => exact ⟨nofun, nofun⟩
  | some v =>
    cases value' with
    | none => exact ⟨nofun, nofun⟩
    | some w =>
      refine ⟨fun h => .some (written_eq_iff.mp (Option.some.inj h)), fun h => ?_⟩
      cases h with
      | some h => exact congrArg some h.written_eq

theorem parts_eq_iff {config config' : Value N} :
    parts numberText config = parts numberText config'
      ↔ EachPart (Alike numberText) config config' := by
  unfold parts
  constructor
  · intro h
    obtain ⟨hget, hrest⟩ := List.append_inj h (by simp)
    exact ⟨fun k hk => map_written_eq_iff.mp (List.map_inj_left.mp hget k hk),
      written_eq_iff.mp (Option.some.inj (List.cons.inj hrest).1)⟩
  · rintro ⟨hget, hrest⟩
    rw [List.map_congr_left fun k hk => map_written_eq_iff.mpr (hget k hk),
      written_eq_iff.mpr hrest]

theorem eachPart_refl (config : Value N) : EachPart (Alike numberText) config config :=
  parts_eq_iff.mp rfl

end

theorem eq_of_sameShape {config config' : Value N} (h : Ordered config) (h' : Ordered config')
    (hshape : EachPart (SameShape env.numberText) config config')
    (halike : EachPart (Alike env.numberText) config config') : config = config' := by
  have hget : ∀ k ∈ hashedTypes, config.get k = config'.get k := by
    intro k hk
    have hshape := hshape.1 k hk
    have halike := halike.1 k hk
    generalize config.get k = value at hshape halike ⊢
    generalize config'.get k = value' at hshape halike ⊢
    cases hshape with
    | none => rfl
    | some hshape =>
      cases halike with
      | some halike => exact congrArg some (eq_of_alike hshape halike)
  have hrest : config.rest = config'.rest := eq_of_alike hshape.2 halike.2
  calc config = (calculateTableHash env config).2 := (calculateTableHash_unchanged h).symm
    _ = (calculateTableHash env config').2 := by
      simp only [hashedTypes, List.mem_cons, List.not_mem_nil, or_false, forall_eq_or_imp,
        forall_eq] at hget
      simp only [calculateTableHash, hrest, hget]
    _ = config' := calculateTableHash_unchanged h'

end

section

variable {N : Type}

/-- Two configurations are told apart exactly when they do not have all
parts alike, so where their parts are of one shape. The call leaves its
argument as it is, and the order in which keys are visited does not
matter. -/
theorem config_hash_is_shared (env : Env N) (hpairs : ∀ keys, (env.pairs keys).Perm keys)
    (config : Value N) (h : ConfigOk env.numberText config) :
    (∀ config', ConfigOk env.numberText config' → NoCollision env config config' →
        ((((calculateConfigHash env (some config)).1.config
              = (calculateConfigHash env (some config')).1.config ↔ config = config')
            ↔ (config = config' ∨ ¬ EachPart (Alike env.numberText) config config'))
          ∧ (EachPart (SameShape env.numberText) config config' →
            ((calculateConfigHash env (some config)).1.config
              = (calculateConfigHash env (some config')).1.config ↔ config = config'))))
    ∧ (calculateConfigHash env (some config)).2 = some config
    ∧ ∀ pairs : List Text → List Text, (∀ keys, (pairs keys).Perm keys) →
        calculateConfigHash { env with pairs := pairs } (some config)
          = calculateConfigHash env (some config) := by
  have htable : ∀ {env : Env N} {config : Value N}, config.isTable = true →
      calculateConfigHash env (some config)
        = ((calculateTableHash env config).1, some (calculateTableHash env config).2) := by
    intro env config hconfig
    simp [calculateConfigHash, hconfig]
  refine ⟨?_, ?_, ?_⟩
  · intro config' h' hmd5
    rw [htable h.table, htable h'.table, config_eq_iff hpairs h h' hmd5, parts_eq_iff]
    refine ⟨?_, fun hshape => ⟨?_, fun heq => ?_⟩⟩
    · by_cases heq : config = config'
      · simp [heq, eachPart_refl]
      · simp [heq]
    · exact fun halike => eq_of_sameShape h.ordered h'.ordered hshape halike
    · exact heq ▸ eachPart_refl config
  · rw [htable h.table, calculateTableHash_unchanged h.ordered]
  · intro pairs hperm
    have h' : ConfigOk ({ env with pairs := pairs } : Env N).numberText config := h
    rw [htable h.table, htable h.table, calculateTableHash_unchanged h.ordered,
      calculateTableHash_unchanged h.ordered]
    have hget : ∀ k ∈ hashedTypes, calculateHash { env with pairs := pairs } (config.get k)
        = calculateHash env (config.get k) := by
      intro k hk
      rw [calculateHash_get hperm h' hk, calculateHash_get hpairs h hk]
      cases config.get k with
      | none => rfl
      | some value => rfl
    have hrest : calculateHash { env with pairs := pairs } (some config.rest)
        = calculateHash env (some config.rest) := by
      rw [calculateHash_rest hperm h', calculateHash_rest hpairs h]
      rfl
    simp only [calculateTableHash, hrest, hget _ (show ofText "routes" ∈ hashedTypes by decide),
      hget _ (show ofText "services" ∈ hashedTypes by decide),
      hget _ (show ofText "plugins" ∈ hashedTypes by decide),
      hget _ (show ofText "upstreams" ∈ hashedTypes by decide),
      hget _ (show ofText "targets" ∈ hashedTypes by decide)]

end

/-! ## Routes with one path and with two -/

/-- Digests are the length and the first bytes of a text here. -/
def sampleEnv : Env Nat where
  md5 := fun text => (Fin.ofNat 256 text.length :: text ++ List.replicate 32 120).take 32
  md5Bin := fun text => (text ++ List.replicate 16 120).take 16
  numberText := fun n => ofText (toString n)
  pairs := List.reverse

/-- A configuration with a route for some paths. -/
def routeConfig (paths : List String) : Value Nat :=
  .object [(ofText "routes",
    .array [.object [(ofText "paths", .array (paths.map fun path => .string (ofText path)))]])]

theorem configOk_routeConfig {paths : List String} (routes : Text)
    (hparts : parts sampleEnv.numberText (routeConfig paths)
      = [some routes, none, none, none, none, some (ofText "\x7b\x7d")])
    (hshort : routes.length ≤ 1000000) : ConfigOk sampleEnv.numberText (routeConfig paths) := by
  have hstrings : ∀ l : List String,
      OrderedItems (l.map fun path => (Value.string (ofText path) : Value Nat)) := by
    intro l
    induction l with
    | nil => simp [OrderedItems]
    | cons path l ih => simp [OrderedItems, Ordered, ih]
  refine ⟨rfl, ?_, ?_⟩
  · simp [routeConfig, Ordered, OrderedFields, OrderedItems, hstrings]
  · intro text htext
    rw [hparts] at htext
    simp only [List.mem_cons, List.not_mem_nil, or_false, Option.some.injEq, reduceCtorEq,
      false_or] at htext
    rcases htext with rfl | rfl
    · exact hshort
    · decide

/-- Another path is noticed. -/
theorem other_path_is_noticed :
    (calculateConfigHash sampleEnv (some (routeConfig ["/a"]))).1.config
      ≠ (calculateConfigHash sampleEnv (some (routeConfig ["/b"]))).1.config := by
  have hok : ConfigOk sampleEnv.numberText (routeConfig ["/a"]) :=
    configOk_routeConfig (ofText "paths:/a;") (by decide +kernel) (by decide)
  have hok' : ConfigOk sampleEnv.numberText (routeConfig ["/b"]) :=
    configOk_routeConfig (ofText "paths:/b;") (by decide +kernel) (by decide)
  have hmd5 : NoCollision sampleEnv (routeConfig ["/a"]) (routeConfig ["/b"]) := by
    refine ⟨fun text => ?_, by decide +kernel, by decide +kernel⟩
    simp [sampleEnv, declarativeEmptyConfigHash]
  have hparts : parts sampleEnv.numberText (routeConfig ["/a"])
      ≠ parts sampleEnv.numberText (routeConfig ["/b"]) := by decide +kernel
  have hne : routeConfig ["/a"] ≠ routeConfig ["/b"] := fun h => hparts (congrArg _ h)
  have hiff := ((config_hash_is_shared sampleEnv List.reverse_perm (routeConfig ["/a"]) hok).1
    (routeConfig ["/b"]) hok' hmd5).1.mpr (.inr fun h => hparts (parts_eq_iff.mpr h))
  exact fun h => hne (hiff.mp h)

/-- A route for the paths `/a` and `/b` and one for the path `/a;/b` are
written alike, and the new configuration is taken for the old one. -/
theorem other_paths_not_noticed :
    routeConfig ["/a", "/b"] ≠ routeConfig ["/a;/b"]
    ∧ (calculateConfigHash sampleEnv (some (routeConfig ["/a", "/b"]))).1.config
        = (calculateConfigHash sampleEnv (some (routeConfig ["/a;/b"]))).1.config
    ∧ sameConfigReceived sampleEnv
        (calculateConfigHash sampleEnv (some (routeConfig ["/a", "/b"]))).1.config
        (routeConfig ["/a;/b"]) = true := by
  refine ⟨?_, by decide +kernel, by decide +kernel⟩
  simp [routeConfig]

end KongGateway.Kong.Clustering.ConfigHelper

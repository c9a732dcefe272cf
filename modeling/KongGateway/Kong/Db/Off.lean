import KongGateway.Kong.Db.Declarative

/-!
# Off — the pages of the strategy without a database

A page is read from the keys with a prefix. Entities that have expired
are left out of it; the offset of the next page is the key after the last
one read, in base64. The offsets that `page` gets are decoded again.

The options have no tags. Reading LMDB does not fail; a value that is no
serialized entity fails to decode.
-/

namespace KongGateway.Kong.Db.Off

open Bytes Declarative

/-- A row, nothing, or an error. -/
abbrev Row := Except String (Option Entity)

/-- Rows and the offset of the next page, or an error. -/
abbrev Page := Except String (List Entity × Option Text)

/-! ## Rows -/

def unmarshall : Option Value → Row
  | none => .ok none
  | some (.item entity) => .ok (some entity)
  | some (.text _) => .error "bad serialized data"

/-- The remaining time replaces the expiry; an expired entity is not
returned. -/
def processTtlField (now : Int) (entity : Entity) : Option Entity :=
  match entity.ttl with
  | none => some entity
  | some ttl => if 0 < ttl - now then some { entity with ttl := some (ttl - now) } else none

/-- What `construct_entity` makes of a stored entity. -/
def restore (schema : Schema) (now : Int) (entity : Entity) : Option Entity :=
  if schema.ttl then processTtlField now entity else some { entity with ttl := none }

def constructEntity (schema : Schema) (now : Int) (value : Option Value) : Row :=
  (unmarshall value).map fun entity => entity.bind (restore schema now)

/-- `select_by_key` without an indirection. -/
def selectByKey (lmdb : Lmdb) (schema : Schema) (now : Int) (key : Text) : Row :=
  constructEntity schema now (lmdb.get key)

/-- A row of a page, from a value found there. -/
def pageRow (lmdb : Lmdb) (schema : Schema) (now : Int) : (follow : Bool) → Value → Row
  | true, .text key => selectByKey lmdb schema now key
  -- no key is a serialized entity
  | true, .item _ => .ok none
  | false, value => constructEntity schema now (some value)

/-! ## Pages -/

/-- `lmdb_prefix.page`. -/
def lmdbPage (lmdb : Lmdb) (start keyPrefix : Text) (size : Nat) : List (Text × Value) × Bool :=
  lmdb.page start (fun key => keyPrefix.isPrefixOf key) size

def encodeOffset (lastKey : Text) : Text := encodeBase64 (lastKey ++ [0])

def pageForPrefix (lmdb : Lmdb) (schema : Schema) (now : Int) (keyPrefix : Text) (size : Nat)
    (offset : Option Text) (follow : Bool) : Page := do
  let (res, more) := lmdbPage lmdb (offset.getD keyPrefix) keyPrefix size
  let rows ← res.mapM fun kv => pageRow lmdb schema now follow kv.2
  -- a size of at least 1 gives a last key whenever more follow
  let nextOffset := if more then res.getLast?.map fun kv => encodeOffset kv.1 else none
  .ok (rows.filterMap id, nextOffset)

def page (env : Env) (lmdb : Lmdb) (schema : Schema) (now : Int) (options : WorkspaceOption)
    (size : Nat) (offset : Option Text) : Page :=
  let keyPrefix := itemKeyPrefix schema.name (workspaceId env schema options)
  match offset with
  | none => pageForPrefix lmdb schema now keyPrefix size none false
  | some offset =>
    match decodeBase64 offset with
    | none => .error "bad base64 encoding"
    | some token => pageForPrefix lmdb schema now keyPrefix size (some token) false

/-- The `page_for_` function of a foreign field. -/
def pageFor (env : Env) (lmdb : Lmdb) (schema : Schema) (now : Int) (fname foreignId : Text)
    (options : WorkspaceOption) (size : Nat) (offset : Option Text) : Page :=
  let keyPrefix :=
    foreignFieldKeyPrefix schema.name (workspaceId env schema options) fname foreignId
  pageForPrefix lmdb schema now keyPrefix size offset true

end KongGateway.Kong.Db.Off

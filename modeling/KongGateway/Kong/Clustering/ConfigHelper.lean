import Mathlib.Data.List.Sort
import KongGateway.Lib.Bytes

/-!
# ConfigHelper — the hash of a configuration

The control plane and the data planes compare configurations by a hash of
a canonical text. The text is written without quotes: an array of one
element is written as the element, arrays of up to five elements have
semicolons between them, longer ones and objects after each.

A table built from a JSON object is a list of fields in the order of their
keys; `pairs` visits the keys in any order. How a number is written, and
the digests, are parameters.
-/

namespace KongGateway.Kong.Clustering.ConfigHelper

open Bytes

abbrev Text := List Byte

/-- A JSON value, with numbers of a type `N`. -/
inductive Value (N : Type) where
  | null
  | bool (b : Bool)
  | number (n : N)
  | string (s : Text)
  | array (items : List (Value N))
  | object (fields : List (Text × Value N))

/-- The digests, and the order in which `pairs` visits keys. -/
structure Env (N : Type) where
  md5 : Text → Text
  md5Bin : Text → Text
  /-- A number as `buffer:put` writes it. -/
  numberText : N → Text
  pairs : List Text → List Text

/-- `constants.DECLARATIVE_EMPTY_CONFIG_HASH`. -/
def declarativeEmptyConfigHash : Text := List.replicate 32 48

def semicolon : Byte := 59
def colon : Byte := 58

/-! ## The canonical text -/

section

variable {N : Type} (env : Env N)

/-- A long buffer is replaced by its digest. -/
def shorten (o : Text) : Text := if o.length > 1000000 then env.md5Bin o else o

/-- Elements up to five: a semicolon between them. -/
def putJoined : List (Text → Text) → Text → Text
  | [], o => o
  | [put], o => put o
  | put :: puts, o => putJoined puts (put o ++ [semicolon])

/-- More elements: a semicolon after each. -/
def putAll : List (Text → Text) → Text → Text
  | [], o => o
  | put :: puts, o => putAll puts (put o ++ [semicolon])

/-- The fields in the order of the keys. -/
def putFields (puts : List (Text × (Text → Text))) : List Text → Text → Text
  | [], o => o
  | k :: ks, o =>
    putFields puts ks (((puts.lookup k).getD fun o => o) (o ++ k ++ [colon]) ++ [semicolon])

def sortKeys (keys : List Text) : List Text := keys.mergeSort fun a b => a ≤ b

mutual

/-- `to_sorted_string`: what is in the buffer after a value. -/
def toSortedString : Value N → Text → Text
  | .null, o => shorten env o ++ ofText "/null/"
  | .bool b, o => shorten env o ++ ofText (if b then "true" else "false")
  | .number n, o => shorten env o ++ env.numberText n
  | .string s, o => shorten env o ++ s
  | .array items, o =>
    if items.isEmpty then shorten env o ++ ofText "\x7b\x7d"
    else if items.length ≤ 5 then putJoined (elementPuts items) (shorten env o)
    else putAll (elementPuts items) (shorten env o)
  | .object fields, o =>
    if fields.isEmpty then shorten env o ++ ofText "\x7b\x7d"
    else putFields (fieldPuts fields) (sortKeys (env.pairs (fields.map Prod.fst)))
      (shorten env o)

def elementPuts : List (Value N) → List (Text → Text)
  | [] => []
  | item :: items => toSortedString item :: elementPuts items

def fieldPuts : List (Text × Value N) → List (Text × (Text → Text))
  | [] => []
  | (k, value) :: fields => (k, toSortedString value) :: fieldPuts fields

end

def calculateHash : Option (Value N) → Text
  | none => declarativeEmptyConfigHash
  | some input => env.md5 (toSortedString env input [])

/-! ## The hash of a configuration -/

/-- `config_table[k]`. -/
def Value.get (k : Text) : Value N → Option (Value N)
  | .object fields => fields.lookup k
  | _ => none

/-- The fields with another value, or none, under a key. -/
def setField (fields : List (Text × Value N)) (k : Text) : Option (Value N) → List (Text × Value N)
  | none => fields.filter fun field => field.1 ≠ k
  | some value => (fields.filter fun field => field.1 < k) ++ (k, value)
      :: fields.filter fun field => k < field.1

/-- `config_table[k] = value`, where only an object gets a value. -/
def Value.set (k : Text) (value : Option (Value N)) : Value N → Value N
  | .object fields => .object (setField fields k value)
  | other => other

def Value.isTable : Value N → Bool
  | .array _ => true
  | .object _ => true
  | _ => false

structure Hashes where
  config : Text
  routes : Option Text
  services : Option Text
  plugins : Option Text
  upstreams : Option Text
  targets : Option Text
  deriving DecidableEq, Repr

/-- The entities that have a hash of their own. -/
def hashedTypes : List Text :=
  [ofText "routes", ofText "services", ofText "plugins", ofText "upstreams", ofText "targets"]

/-- A table without the entities that have a hash of their own. -/
def Value.rest (config : Value N) : Value N :=
  hashedTypes.foldl (fun config k => config.set k none) config

/-- `calculate_config_hash` of a table: the hashes, and what the call
leaves of the table. -/
def calculateTableHash (config : Value N) : Hashes × Value N :=
  let routes := config.get (ofText "routes")
  let services := config.get (ofText "services")
  let plugins := config.get (ofText "plugins")
  let upstreams := config.get (ofText "upstreams")
  let targets := config.get (ofText "targets")
  let configHash := env.md5 (calculateHash env routes ++ calculateHash env services
    ++ calculateHash env plugins ++ calculateHash env upstreams ++ calculateHash env targets
    ++ calculateHash env (some config.rest))
  ({ config := configHash
     routes := some (calculateHash env routes)
     services := some (calculateHash env services)
     plugins := some (calculateHash env plugins)
     upstreams := some (calculateHash env upstreams)
     targets := some (calculateHash env targets) },
    ((((config.rest.set (ofText "routes") routes).set (ofText "services") services).set
      (ofText "plugins") plugins).set (ofText "upstreams") upstreams).set (ofText "targets") targets)

def calculateConfigHash (config : Option (Value N)) : Hashes × Option (Value N) :=
  match config with
  | some config =>
    if config.isTable then
      ((calculateTableHash env config).1, some (calculateTableHash env config).2)
    else
      ({ config := calculateHash env (some config), routes := none, services := none,
         plugins := none, upstreams := none, targets := none }, some config)
  | none =>
    ({ config := calculateHash env none, routes := none, services := none, plugins := none,
       upstreams := none, targets := none }, none)

/-- Whether `update` keeps the configuration a data plane runs, without
looking at the new one. -/
def sameConfigReceived (currentHash : Text) (config : Value N) : Bool :=
  currentHash = (calculateConfigHash env (some config)).1.config

end

end KongGateway.Kong.Clustering.ConfigHelper

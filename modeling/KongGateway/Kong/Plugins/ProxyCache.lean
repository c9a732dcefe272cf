import Mathlib.Data.List.Dedup
import Mathlib.Data.List.Sort
import KongGateway.Lib.Bytes

/-!
# ProxyCache — the key of a cached response

The key is a digest of the route and the consumer, the method, the URI and
the query parameters and headers that responses vary on. Parameters that
come more than once are a table of values, a parameter without a value is
`true`; sorting or joining a table with `true` in it raises an error.
-/

namespace KongGateway.Kong.Plugins.ProxyCache

open Bytes

abbrev Text := List Byte

/-- A value of a table; `none` is `true`. -/
abbrev Value := Option Text

/-- A parameter or a header. -/
inductive Arg where
  | flag
  | text (value : Text)
  | table (values : List Value)
  deriving DecidableEq

structure Config where
  varyQueryParams : Option (List Text)
  varyHeaders : Option (List Text)
  ignoreUriCase : Bool

abbrev Lua := Except String

def sortTexts (texts : List Text) : List Text := texts.mergeSort fun a b => a ≤ b

/-- `sort(arg)` and `concat(arg, ",")`. -/
def concatSorted (values : List Value) : Lua Text :=
  if none ∈ values then .error "attempt to compare boolean values"
  else .ok ([44].intercalate (sortTexts (values.filterMap id)))

/-- What is inserted for a field. -/
def fieldKey (field : Text) : Arg → Lua Text
  | .table values => do
    let joined ← concatSorted values
    .ok (field ++ [61] ++ joined)
  | .flag => .ok field
  | .text value => .ok (field ++ [61] ++ value)

/-- `args[field]` for the fields, those that are there. -/
def present (args : Text → Option Arg) (varyFields : List Text) : List (Text × Arg) :=
  varyFields.filterMap fun field => (args field).map fun arg => (field, arg)

def generateKeyFrom (args : Text → Option Arg) (varyFields : List Text) : Lua Text := do
  let cacheKey ← (present args varyFields).mapM fun field => fieldKey field.1 field.2
  .ok ([58].intercalate cacheKey)

/-- `params[field]`, where no name is there twice. -/
def lookup (params : List (Text × Arg)) (field : Text) : Option Arg := params.lookup field

/-- The parameters that responses vary on: all of them when none is
configured. -/
def paramFields (params : List (Text × Arg)) (conf : Config) : List Text :=
  match conf.varyQueryParams with
  | some (field :: fields) => field :: fields
  | _ => sortTexts (params.map Prod.fst)

def paramsKey (params : List (Text × Arg)) (conf : Config) : Lua Text :=
  generateKeyFrom (lookup params) (paramFields params conf)

def headersKey (headers : Text → Option Arg) (conf : Config) : Lua Text :=
  generateKeyFrom headers (conf.varyHeaders.getD [])

def prefixUuid (consumerId routeId : Option Text) : Text :=
  match consumerId, routeId with
  | some consumerId, some routeId => consumerId ++ [58] ++ routeId
  | _, some routeId => routeId
  | _, none => ofText "default"

/-- `build_cache_key`, for a digest `sha256Hex`. -/
def buildCacheKey (sha256Hex : Text → Text) (consumerId routeId : Option Text) (method uri : Text)
    (params : List (Text × Arg)) (headers : Text → Option Arg) (conf : Config) : Lua Text := do
  let paramsDigest ← paramsKey params conf
  let headersDigest ← headersKey headers conf
  .ok (sha256Hex ([124].intercalate
    [prefixUuid consumerId routeId, method, uri, paramsDigest, headersDigest]))

/-! ## Requests -/

/-- An argument of the query or a header line; those without a name are
discarded. -/
structure Occurrence where
  name : Text
  value : Value
  named : name ≠ []

/-- The values of a name, in the order in which they come. -/
def occurrences (given : List Occurrence) (name : Text) : List Value :=
  (given.filter fun occurrence => occurrence.name = name).map Occurrence.value

/-- What a table has for a name with these values. -/
def argOf : List Value → Option Arg
  | [] => none
  | [none] => some .flag
  | [some value] => some (.text value)
  | values => some (.table values)

/-- The table of the arguments. -/
def argsTable (given : List Occurrence) : List (Text × Arg) :=
  (given.map Occurrence.name).dedup.filterMap fun name =>
    (argOf (occurrences given name)).map fun arg => (name, arg)

def lower (s : Text) : Text :=
  s.map fun c => if 65 ≤ c.val ∧ c.val ≤ 90 then Fin.ofNat 256 (c.val + 32) else c

/-- The values that the table of headers has for a field: those of this name,
or else those of the name in lower case with dashes. -/
def headerValues (headers : List Occurrence) (field : Text) : List Value :=
  match occurrences headers field with
  | [] => occurrences headers ((lower field).map fun c => if c = 95 then 45 else c)
  | values => values

/-- A request in the access phase, which has a route. The names of headers
are in lower case. -/
structure Request where
  consumerId : Option Text
  routeId : Text
  method : Text
  /-- `ngx.var.request`, the whole line. -/
  requestLine : Text
  query : List Occurrence
  headers : List Occurrence

/-- The request line up to the query. -/
def Request.uri (conf : Config) (request : Request) : Text :=
  let uri := request.requestLine.takeWhile (· ≠ 63)
  if conf.ignoreUriCase then lower uri else uri

/-- `lua_max_uri_args` and `lua_max_req_headers`. -/
structure Limits where
  maxUriArgs : Nat := 100
  maxReqHeaders : Nat := 100

/-- What `get_query()` and `get_headers()` read of a request. -/
def Request.read (limits : Limits) (request : Request) : Request :=
  { request with
    query := request.query.take limits.maxUriArgs
    headers := request.headers.take limits.maxReqHeaders }

/-- The key of the access phase. -/
def accessKey (sha256Hex : Text → Text) (limits : Limits) (conf : Config) (request : Request) :
    Lua Text :=
  buildCacheKey sha256Hex request.consumerId (some request.routeId) request.method
    (request.uri conf) (argsTable (request.read limits).query)
    (fun field => argOf (headerValues (request.read limits).headers field)) conf

end KongGateway.Kong.Plugins.ProxyCache

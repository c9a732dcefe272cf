import Mathlib.Data.List.DropRight
import KongGateway.Lib.LuaPattern
import KongGateway.Lib.Numerals

/-!
# Propagation — tracing headers

A tracing context is read from the headers of a request by extractors and
written into the headers of the upstream request by injectors, one of each
for a format (two injectors for b3). Headers of one name that come more
than once are a table of texts; a method call on it raises an error.

`ngx.escape_uri`, its inverse and the conversions of `resty.openssl.bn`
are parameters. Warnings in the log are left out.
-/

namespace KongGateway.Kong.Tracing

open Bytes Numerals LuaPattern

abbrev Text := List Byte

/-- A header, or the values of all headers of that name. -/
inductive HeaderValue where
  | one (value : Text)
  | many (values : List Text)
  deriving DecidableEq

/-- `ngx.req.get_headers()`, with names in lower case. -/
abbrev Headers := List (String × HeaderValue)

def Headers.get (headers : Headers) (name : String) : Option HeaderValue := headers.lookup name

/-- What is called outside of this module. -/
structure Env where
  escapeUri : Text → Text
  unescapeUri : HeaderValue → Text
  /-- `bn.from_binary(id):to_dec()` -/
  toDec : Text → Text
  /-- `bn.from_dec(digits):to_binary()` -/
  toBinary : Text → Option Text

/-- A call that may raise an error. -/
abbrev Lua := Except String

/-- A tracing context; `reuseSpanId` and `singleHeader` are true or not
there. -/
structure Context where
  traceId : Option Text := none
  spanId : Option Text := none
  parentId : Option Text := none
  reuseSpanId : Bool := false
  shouldSample : Option Bool := none
  baggage : Option (List (String × Text)) := none
  flags : Option HeaderValue := none
  w3cFlags : Option Nat := none
  singleHeader : Bool := false
  traceIdOriginalSize : Option Nat := none
  deriving DecidableEq

/-- `next(ctx) == nil` -/
def Context.isEmpty (ctx : Context) : Bool := ctx = {}

/-! ## Ids -/

/-- `tonumber(s, 16)`, which does not go above the largest 64-bit number. -/
def tonumberHex (s : Text) : Nat := min (hexNumber s) (2 ^ 64 - 1)

def fromHex (s : Text) : Text :=
  replacePairs (if s.length % 2 ≠ 0 then 48 :: s else s)

def toIdSize (id : Text) (length : Nat) : Text :=
  if id.length > length then id.drop (id.length - length)
  else if id.length < length then List.replicate (length - id.length) 0 ++ id
  else id

def toKongTraceId (id : Option Text) : Option Text := id.map fun id => toIdSize id 16

def toKongSpanId (id : Option Text) : Option Text := id.map fun id => toIdSize id 8

/-! ## Texts in headers -/

/-- The rest of a header name after the start of the names of baggage. -/
def baggageKey (start name : String) : Option String :=
  if start.toList.isPrefixOf name.toList then
    some (String.ofList (name.toList.drop start.toList.length))
  else none

def parseBaggageHeaders (env : Env) (headers : Headers) (start : String) :
    Option (List (String × Text)) :=
  match headers.filterMap fun header =>
    (baggageKey start header.1).map fun key => (key, env.unescapeUri header.2) with
  | [] => none
  | baggage => some baggage

/-- A flag that is `1`, `true`, `0` or `false`. -/
def sampledFlag (value : Option HeaderValue) : Option Bool :=
  if value = some (.one (ofText "1")) ∨ value = some (.one (ofText "true")) then some true
  else if value = some (.one (ofText "0")) ∨ value = some (.one (ofText "false")) then some false
  else none

/-- An id of hexadecimal digits in a header, and whether there is one that
is invalid. The length of a table is the number of its values. -/
def idHeader (sizes : List Nat) : Option HeaderValue → Lua (Option Text × Bool)
  | none => .ok (none, false)
  | some (.one value) =>
    if value.length ∉ sizes ∨ value.any (fun c => !isHex c) then .ok (none, true)
    else .ok (some value, false)
  | some (.many values) =>
    if values.length ∉ sizes then .ok (none, true)
    else .error "attempt to call method 'match' (a nil value)"

/-! ## b3 -/

def b3SinglePattern : List (Item Byte) :=
  [(Item.plus isHex).capture, Item.lit 45, (Item.times 16 isHex).capture, Item.opt (· = 45),
    (Item.opt (· ∈ ofText "01d")).capture, Item.opt (· = 45), (Item.star isHex).capture]

/-- `match(v, "^b3=(.+)$")` -/
def matchTracestate (value : Text) : Option Text :=
  ((matchAll ((ofText "b3=").map Item.lit ++ [(Item.plus fun _ => true).capture]) value).bind
    List.head?)

structure B3Context where
  traceId : Option Text := none
  spanId : Option Text := none
  parentId : Option Text := none
  shouldSample : Option Bool := none
  invalidId : Bool := false
  flags : Option HeaderValue := none

/-- The text of the single header, if there is one. -/
def b3SingleHeader (headers : Headers) : Option Text :=
  match headers.get "b3" with
  | some (.one value) => some value
  | some (.many _) => none
  | none =>
    match headers.get "tracestate" with
    | some (.many values) => values.findSome? matchTracestate
    | some (.one value) => matchTracestate value
    | none => none

/-- The sampling decision and the flags of a single header. -/
def b3SampledOf (sampled : Text) : Option Bool × Option HeaderValue :=
  if sampled = ofText "1" then (some true, none)
  else if sampled = ofText "d" then (some true, some (.one (ofText "1")))
  else if sampled = ofText "0" then (some false, none)
  else (none, none)

def readSingleHeader (headers : Headers) : Option B3Context :=
  (b3SingleHeader headers).map fun header =>
    if header = ofText "1" ∨ header = ofText "d" ∨ header = ofText "0" then
      { shouldSample := (b3SampledOf header).1, flags := (b3SampledOf header).2 }
    else
      match matchAll b3SinglePattern header with
      | some [traceId, spanId, sampled, parentId] =>
        if (traceId.length = 16 ∨ traceId.length = 32)
            ∧ (parentId = [] ∨ parentId.length = 16) then
          { traceId := some traceId
            spanId := some spanId
            parentId := if parentId = [] then none else some parentId
            shouldSample := (b3SampledOf sampled).1
            flags := (b3SampledOf sampled).2 }
        else
          { traceId := some traceId, spanId := some spanId, parentId := some parentId,
            invalidId := true }
      | _ => { invalidId := true }

def readMultiHeader (headers : Headers) : Lua B3Context := do
  let traceId ← idHeader [16, 32] (headers.get "x-b3-traceid")
  let spanId ← idHeader [16] (headers.get "x-b3-spanid")
  let parentId ← idHeader [16] (headers.get "x-b3-parentspanid")
  .ok { traceId := traceId.1
        spanId := spanId.1
        parentId := parentId.1
        shouldSample :=
          if headers.get "x-b3-flags" = some (.one (ofText "1")) then some true
          else sampledFlag (headers.get "x-b3-sampled")
        invalidId := traceId.2 || spanId.2 || parentId.2
        flags := headers.get "x-b3-flags" }

/-- The ids of a header, unless one is invalid. -/
def B3Context.ids (ctx : B3Context) : Option Text × Option Text × Option Text :=
  if ctx.invalidId then (none, none, none) else (ctx.traceId, ctx.spanId, ctx.parentId)

def b3Context (headers : Headers) : Lua Context := do
  let single := readSingleHeader headers
  let multi ← readMultiHeader headers
  let singleIds := (single.getD {}).ids
  let traceId := singleIds.1.or multi.ids.1
  let spanId := if traceId.isSome then singleIds.2.1.or multi.ids.2.1 else none
  let parentId := if traceId.isSome then singleIds.2.2.or multi.ids.2.2 else none
  .ok { traceId := traceId.map fromHex
        spanId := spanId.map fromHex
        parentId := parentId.map fromHex
        reuseSpanId := true
        shouldSample := (single.getD {}).shouldSample.or multi.shouldSample
        flags := (single.getD {}).flags.or multi.flags
        singleHeader := single.isSome }

/-! ## w3c, jaeger and ot -/

def w3cPattern : List (Item Byte) :=
  [(Item.plus isHex).capture, Item.lit 45, (Item.plus isHex).capture, Item.lit 45,
    (Item.plus isHex).capture, Item.lit 45, (Item.plus isHex).capture]

def w3cContext (headers : Headers) : Option Context :=
  match headers.get "traceparent" with
  | some (.one traceparent) =>
    match matchAll w3cPattern traceparent with
    | some [version, traceId, parentId, flags] =>
      if version ≠ ofText "00" then none
      else if traceId.length ≠ 32 ∨ tonumberHex traceId = 0 then none
      else if parentId.length ≠ 16 ∨ tonumberHex parentId = 0 then none
      else if flags.length ≠ 2 then none
      else
        some { traceId := some (fromHex traceId)
               -- the parent of the receiver is our span
               spanId := some (fromHex parentId)
               shouldSample := some (tonumberHex flags % 2 = 1)
               w3cFlags := some (tonumberHex flags) }
    | _ => none
  | _ => none

def jaegerPattern : List (Item Byte) :=
  [(Item.plus isHex).capture, Item.lit 58, (Item.plus isHex).capture, Item.lit 58,
    (Item.plus isHex).capture, Item.lit 58, (Item.plus isHex).capture]

def jaegerContext (env : Env) (headers : Headers) : Option Context :=
  match headers.get "uber-trace-id" with
  | some (.one header) =>
    match matchAll jaegerPattern header with
    | some [traceId, spanId, parentId, traceFlags] =>
      if traceId.length > 32 ∨ tonumberHex traceId = 0 then none
      -- an invalid parent id is only logged
      else if spanId.length > 16 ∨ tonumberHex spanId = 0 then none
      else if traceFlags.length ≠ 1 ∧ traceFlags.length ≠ 2 then none
      else
        some { traceId := some (fromHex traceId)
               spanId := some (fromHex spanId)
               parentId := some (fromHex parentId)
               reuseSpanId := true
               shouldSample := some (tonumberHex traceFlags % 2 = 1)
               baggage := parseBaggageHeaders env headers "uberctx-" }
    | _ => none
  | _ => none

def otContext (env : Env) (headers : Headers) : Lua Context := do
  let traceId ← idHeader [16, 32] (headers.get "ot-tracer-traceid")
  let spanId ← idHeader [16] (headers.get "ot-tracer-spanid")
  let valid := traceId.1.isSome && !(traceId.2 || spanId.2)
  .ok { traceId := if valid then traceId.1.map fromHex else none
        spanId := if valid then spanId.1.map fromHex else none
        shouldSample := sampledFlag (headers.get "ot-tracer-sampled")
        baggage := parseBaggageHeaders env headers "ot-baggage-" }

/-! ## datadog, aws, gcp and instana -/

/-- `value:match("^%s*(%d+)%s*$")` -/
def matchDecimal : Option HeaderValue → Lua (Option Text)
  | none => .ok none
  | some (.one value) =>
    .ok ((matchAll [Item.star isSpace, (Item.plus isDigit).capture, Item.star isSpace] value).bind
      List.head?)
  | some (.many _) => .error "attempt to call method 'match' (a nil value)"

/-- The decision of `x-datadog-sampling-priority`; `none` for an invalid
one. -/
def datadogSampled : Option HeaderValue → Option (Option Bool)
  | none => some none
  | some value =>
    if value = .one (ofText "1") ∨ value = .one (ofText "2") then some (some true)
    else if value = .one (ofText "0") ∨ value = .one (ofText "-1") then some (some false)
    else none

def datadogContext (env : Env) (headers : Headers) : Lua (Option Context) :=
  match datadogSampled (headers.get "x-datadog-sampling-priority") with
  | none => .ok none
  | some shouldSample => do
    let traceId ← matchDecimal (headers.get "x-datadog-trace-id")
    let parentId ← matchDecimal (headers.get "x-datadog-parent-id")
    .ok (some
      { traceId := traceId.bind env.toBinary
        spanId := if traceId.isSome then parentId.bind env.toBinary else none
        shouldSample := shouldSample })

def awsTraceIdPattern : List (Item Byte) :=
  [(Item.plus isHex).capture, Item.lit 45, (Item.plus isHex).capture, Item.lit 45,
    (Item.plus isHex).capture]

def strip (s : Text) : Text := (s.dropWhile isSpace).rdropWhile isSpace

/-- `split_once` at a character; a missing second part is stripped to the
empty text. -/
def splitOnce (s : Text) (delim : Byte) : Text × Text :=
  (s.takeWhile (· ≠ delim), (s.dropWhile (· ≠ delim)).drop 1)

/-- What one `key=value` of the header changes, or `none` where the header
is ignored. -/
def awsPair (ctx : Context) (pair : Text) : Option Context :=
  let key := strip (splitOnce pair 61).1
  let value := strip (splitOnce pair 61).2
  if key = ofText "Root" then
    match matchAll awsTraceIdPattern value with
    | some [version, timestampSubset, uniqueIdSubset] =>
      if value.length ≠ 35 ∨ version ≠ ofText "1" ∨ timestampSubset.length ≠ 8
          ∨ uniqueIdSubset.length ≠ 24 then none
      else some { ctx with traceId := some (fromHex (timestampSubset ++ uniqueIdSubset)) }
    | _ => none
  else if key = ofText "Parent" then
    if value.length ≠ 16 then none
    else some { ctx with spanId := some (fromHex value) }
  else if key = ofText "Sampled" then
    if value ≠ ofText "0" ∧ value ≠ ofText "1" then none
    else some { ctx with shouldSample := some (value = ofText "1") }
  else some ctx

def awsContext (headers : Headers) : Option Context :=
  match headers.get "x-amzn-trace-id" with
  | some (.one header) => (header.splitOn 59).foldlM awsPair {}
  | _ => none

/-- The end of a text, or the newline at its end. -/
def gcpEnd (s : Text) : Option (List Text) := if s = [] ∨ s = [10] then some [] else none

def gcpFlags (s : Text) : Option (List Text) :=
  matchThen gcpEnd ((ofText ";o=").map Item.lit ++ [(Item.times 1 isDigit).capture]) s

/-- `GCP_TRACECONTEXT_REGEX`, with two captures or three. -/
def gcpMatch (s : Text) : Option (List Text) :=
  matchThen (fun s => (gcpFlags s).or (gcpEnd s))
    [(Item.times 32 isLowerHex).capture, Item.lit 47,
      { cls := isDigit, lo := 1, hi := some 20, captured := true }] s

def gcpContext (env : Env) (headers : Headers) : Option Context :=
  match headers.get "x-cloud-trace-context" with
  | some (.one header) =>
    match gcpMatch header with
    | some (traceId :: spanId :: traceFlags) =>
      some { traceId := some (fromHex traceId)
             spanId := env.toBinary spanId
             shouldSample := some (traceFlags = [ofText "1"]) }
    | _ => none
  | _ => none

/-- `value:match("^(%x+)")` -/
def hexStart (value : Text) : Option Text :=
  (matchStart [(Item.plus isHex).capture] value).bind List.head?

def instanaContext (headers : Headers) : Lua (Option Context) :=
  match headers.get "x-instana-t", headers.get "x-instana-s" with
  | some (.one traceId), some (.one spanId) =>
    -- a trace id of another length is only logged
    let ctx : Context :=
      { traceId := (hexStart traceId).map fromHex, spanId := (hexStart spanId).map fromHex }
    match headers.get "x-instana-l" with
    | none => .ok (some { ctx with shouldSample := some false })
    | some (.one level) =>
      .ok (some { ctx with shouldSample := some (level.take 1 = ofText "1") })
    | some (.many _) => .error "attempt to call method 'sub' (a nil value)"
  | _, _ => .ok none

/-! ## Extractors -/

inductive Extractor where
  | b3
  | w3c
  | jaeger
  | ot
  | datadog
  | aws
  | gcp
  | instana
  deriving DecidableEq, Repr

/-- `headers_validate.any` -/
def Extractor.anyHeaders : Extractor → List String
  | .b3 =>
    ["b3", "tracestate", "x-b3-traceid", "x-b3-spanid", "x-b3-parentspanid", "x-b3-sampled",
      "x-b3-flags"]
  | .w3c => ["traceparent"]
  | .jaeger => ["uber-trace-id"]
  | .ot => ["ot-tracer-sampled", "ot-tracer-traceid", "ot-tracer-spanid"]
  | .datadog => ["x-datadog-trace-id", "x-datadog-parent-id", "x-datadog-sampling-priority"]
  | .aws => ["x-amzn-trace-id"]
  | .gcp => ["x-cloud-trace-context"]
  | .instana => ["x-instana-t", "x-instana-s", "x-instana-l"]

def Extractor.verifyHeaders (extractor : Extractor) (headers : Headers) : Bool :=
  extractor.anyHeaders.any fun name => (headers.get name).isSome

def Extractor.getContext (env : Env) (headers : Headers) : Extractor → Lua (Option Context)
  | .b3 => (b3Context headers).map some
  | .w3c => .ok (w3cContext headers)
  | .jaeger => .ok (jaegerContext env headers)
  | .ot => (otContext env headers).map some
  | .datadog => datadogContext env headers
  | .aws => .ok (awsContext headers)
  | .gcp => .ok (gcpContext env headers)
  | .instana => instanaContext headers

/-- The ids in the internal format, and the size of the trace id. -/
def Context.toKong (ctx : Context) : Context :=
  { ctx with
    traceIdOriginalSize := ctx.traceId.map List.length
    traceId := toKongTraceId ctx.traceId
    spanId := toKongSpanId ctx.spanId
    parentId := toKongSpanId ctx.parentId }

def Extractor.extract (env : Env) (extractor : Extractor) (headers : Headers) :
    Lua (Option Context) :=
  if extractor.verifyHeaders headers then
    (extractor.getContext env headers).map fun ctx => ctx.map Context.toKong
  else .ok none

/-- The loop of `extract_tracing_context`: the context that is returned, and
the extractor it is from. -/
def extractFrom (env : Env) (headers : Headers) (last : Option Context) :
    List Extractor → Lua (Option Context × Option Extractor)
  | [] => .ok (last, none)
  | extractor :: extractors => do
    let ctx ← extractor.extract env headers
    match ctx with
    | some found =>
      if found.isEmpty then extractFrom env headers ctx extractors
      else .ok (ctx, some extractor)
    | none => extractFrom env headers ctx extractors

/-- `extract_tracing_context(conf)`, for `conf.extract`. -/
def extractTracingContext (env : Env) (headers : Headers) (extractors : Option (List Extractor)) :
    Lua (Option Context × Option Extractor) :=
  match extractors with
  | none => .ok (some {}, none)
  | some extractors => extractFrom env headers (some {}) extractors

/-! ## Injectors -/

inductive Injector where
  | b3
  | b3Single
  | w3c
  | jaeger
  | ot
  | datadog
  | aws
  | gcp
  | instana
  deriving DecidableEq, Repr

def Injector.name : Injector → String
  | .b3 => "b3"
  | .b3Single => "b3-single"
  | .w3c => "w3c"
  | .jaeger => "jaeger"
  | .ot => "ot"
  | .datadog => "datadog"
  | .aws => "aws"
  | .gcp => "gcp"
  | .instana => "instana"

/-- The extractor that reads what an injector writes. -/
def Injector.extractor : Injector → Extractor
  | .b3 | .b3Single => .b3
  | .w3c => .w3c
  | .jaeger => .jaeger
  | .ot => .ot
  | .datadog => .datadog
  | .aws => .aws
  | .gcp => .gcp
  | .instana => .instana

/-- `context_validate.all` asks for a trace id and a span id. -/
def Injector.requiresIds : Injector → Bool
  | .w3c | .jaeger | .ot | .aws | .gcp => true
  | .b3 | .b3Single | .datadog | .instana => false

/-- `trace_id_allowed_sizes`, the first one being the default. -/
def Injector.traceIdAllowedSizes : Injector → List Nat
  | .b3 | .b3Single | .jaeger | .instana => [16, 8]
  | .ot => [8, 16]
  | .w3c | .aws | .gcp => [16]
  | .datadog => [8]

/-- `verify_context`: the error, if there is one. -/
def Injector.verifyContext (injector : Injector) (ctx : Context) : Option String :=
  if injector.requiresIds then
    if ctx.traceId.isNone then some "field trace_id not found in context"
    else if ctx.spanId.isNone then some "field span_id not found in context"
    else none
  else none

def Injector.newTraceIdSize (injector : Injector) (ctx : Context) : Nat :=
  match ctx.traceIdOriginalSize with
  | some size =>
    if size ∈ injector.traceIdAllowedSizes then size
    else injector.traceIdAllowedSizes.headD 16
  | none => injector.traceIdAllowedSizes.headD 16

/-- The context with ids of the sizes of the format. -/
def Injector.resize (injector : Injector) (ctx : Context) : Context :=
  { ctx with
    traceId := ctx.traceId.map fun id => toIdSize id (injector.newTraceIdSize ctx)
    spanId := ctx.spanId.map fun id => toIdSize id 8
    parentId := ctx.parentId.map fun id => toIdSize id 8 }

/-- `to_hex`, which takes the length of its argument. -/
def toHexOf : Option Text → Lua Text
  | some id => .ok (toHex id)
  | none => .error "attempt to get length of local 's' (a nil value)"

def flagText (shouldSample : Option Bool) (yes no : String) : Text :=
  ofText (if shouldSample = some true then yes else no)

/-- The headers of baggage; their names are shown in lower case. -/
def baggageHeaders (env : Env) (ctx : Context) (start : String) : Headers :=
  (ctx.baggage.getD []).map fun item => (start ++ item.1.toLower, .one (env.escapeUri item.2))

def b3Headers (ctx : Context) : Headers :=
  (match ctx.traceId, ctx.spanId with
    | some traceId, some spanId =>
      [("x-b3-traceid", .one (toHex traceId)), ("x-b3-spanid", .one (toHex spanId))]
        ++ (match ctx.parentId with
          | some parentId => [("x-b3-parentspanid", .one (toHex parentId))]
          | none => [])
    | _, _ => [])
    ++ (match ctx.flags with
      | some flags => [("x-b3-flags", flags)]
      | none => [("x-b3-sampled", .one (flagText ctx.shouldSample "1" "0"))])

/-- The sampled section of the single header. -/
def b3Sampled (ctx : Context) : Option Text :=
  if ctx.flags = some (.one (ofText "1")) then some (ofText "d")
  else ctx.shouldSample.map fun sample => ofText (if sample then "1" else "0")

def b3SingleHeaders (ctx : Context) : Headers :=
  match ctx.traceId, ctx.spanId with
  | some traceId, some spanId =>
    [("b3", .one (toHex traceId ++ [45] ++ toHex spanId
      ++ (match b3Sampled ctx with
        | some sampled => 45 :: sampled
        | none => [])
      ++ (match ctx.parentId with
        | some parentId => 45 :: toHex parentId
        | none => [])))]
  | _, _ => [("b3", .one ((b3Sampled ctx).getD (ofText "0")))]

def w3cHeaders (ctx : Context) : Lua Headers := do
  let traceId ← toHexOf ctx.traceId
  let spanId ← toHexOf ctx.spanId
  .ok [("traceparent", .one (ofText "00-" ++ traceId ++ [45] ++ spanId ++ [45]
    ++ flagText ctx.shouldSample "01" "00"))]

def jaegerHeaders (env : Env) (ctx : Context) : Lua Headers := do
  let traceId ← toHexOf ctx.traceId
  let spanId ← toHexOf ctx.spanId
  .ok (("uber-trace-id", .one (traceId ++ [58] ++ spanId ++ [58]
    ++ (match ctx.parentId with
      | some parentId => toHex parentId
      | none => ofText "0")
    ++ [58] ++ flagText ctx.shouldSample "01" "00"))
    :: baggageHeaders env ctx "uberctx-")

/-- A header for a decision, if there is one. -/
def decisionHeader (name : String) (shouldSample : Option Bool) : Headers :=
  match shouldSample with
  | some sample => [(name, .one (ofText (if sample then "1" else "0")))]
  | none => []

def otHeaders (env : Env) (ctx : Context) : Lua Headers := do
  let traceId ← toHexOf ctx.traceId
  let spanId ← toHexOf ctx.spanId
  .ok ([("ot-tracer-traceid", .one traceId), ("ot-tracer-spanid", .one spanId)]
    ++ decisionHeader "ot-tracer-sampled" ctx.shouldSample ++ baggageHeaders env ctx "ot-baggage-")

/-- A header for an id, if there is one. -/
def idDecHeader (env : Env) (name : String) (id : Option Text) : Headers :=
  match id with
  | some id => [(name, .one (env.toDec id))]
  | none => []

def datadogHeaders (env : Env) (ctx : Context) : Headers :=
  idDecHeader env "x-datadog-trace-id" ctx.traceId
    ++ idDecHeader env "x-datadog-parent-id" ctx.spanId
    ++ decisionHeader "x-datadog-sampling-priority" ctx.shouldSample

def awsHeaders (ctx : Context) : Lua Headers := do
  let traceId ← toHexOf ctx.traceId
  let spanId ← toHexOf ctx.spanId
  .ok [("x-amzn-trace-id", .one (ofText "Root=1-" ++ traceId.take 8 ++ [45] ++ traceId.drop 8
    ++ ofText ";Parent=" ++ spanId ++ ofText ";Sampled=" ++ flagText ctx.shouldSample "1" "0"))]

def gcpHeaders (env : Env) (ctx : Context) : Lua Headers := do
  let traceId ← toHexOf ctx.traceId
  match ctx.spanId with
  | some spanId =>
    .ok [("x-cloud-trace-context", .one (traceId ++ [47] ++ env.toDec spanId ++ ofText ";o="
      ++ flagText ctx.shouldSample "1" "0"))]
  | none => .error "bad argument to 'from_binary'"

def instanaHeaders (ctx : Context) : Lua Headers := do
  let traceId ← toHexOf ctx.traceId
  let spanId ← toHexOf ctx.spanId
  .ok ([("x-instana-t", .one traceId), ("x-instana-s", .one spanId)]
    ++ decisionHeader "x-instana-l" ctx.shouldSample)

def Injector.createHeaders (env : Env) (ctx : Context) : Injector → Lua Headers
  | .b3 => .ok (b3Headers ctx)
  | .b3Single => .ok (b3SingleHeaders ctx)
  | .w3c => w3cHeaders ctx
  | .jaeger => jaegerHeaders env ctx
  | .ot => otHeaders env ctx
  | .datadog => .ok (datadogHeaders env ctx)
  | .aws => awsHeaders ctx
  | .gcp => gcpHeaders env ctx
  | .instana => instanaHeaders ctx

/-- `get_formatted_trace_id`, under the name of the format. -/
def Injector.formattedTraceId (env : Env) (traceId : Option Text) :
    Injector → Lua (String × Option Text)
  | .b3 | .b3Single => .ok ("b3", some ((traceId.map toHex).getD []))
  | .datadog => .ok ("datadog", traceId.map env.toDec)
  | injector => do
    let traceId ← toHexOf traceId
    .ok (injector.name, some traceId)

/-- `checks.normalize_multi_header`: an empty value is set as a blank. -/
def normalizeMultiHeader : HeaderValue → HeaderValue
  | .one value => .one (if value = [] then [32] else value)
  | .many values => .many (values.map fun value => if value = [] then [32] else value)

/-- `inject`: an error, or the headers that are set and the formatted trace
id. -/
def Injector.inject (env : Env) (injector : Injector) (ctx : Context) :
    Lua (Except String (Headers × String × Option Text)) :=
  match injector.verifyContext ctx with
  | some err => .ok (.error (injector.name ++ " injector context is invalid: " ++ err))
  | none => do
    let headers ← injector.createHeaders env (injector.resize ctx)
    let formatted ← injector.formattedTraceId env (injector.resize ctx).traceId
    .ok (.ok (headers.map fun header => (header.1, normalizeMultiHeader header.2), formatted))

end KongGateway.Kong.Tracing

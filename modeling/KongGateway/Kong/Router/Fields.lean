import KongGateway.Lib.LuaStd
import Mathlib.Data.List.DropRight
import Mathlib.Data.List.Sort
import Mathlib.Data.Rat.Defs

/-!
# Fields — the request values an expression router reads

The model of `router/fields.lua` for HTTP: the accessors of the fields,
the cache key and the context of the matching engine, both made by
visiting the fields in one fixed order.

The key is made before the `Host` header is split and the scheme is set,
the context after it. Making the key sorts the value lists in place, so
the context sees them sorted.
-/

namespace KongGateway.Kong.Router

open LuaStd

/-- A field of the HTTP schema. -/
inductive Field where
  | httpMethod
  | httpHost
  | httpPath
  | httpPathSegmentsLen
  | httpPathSegment (pos : Nat)
  | httpPathSegmentRange (pos1 pos2 : Nat)
  | httpHeader (name : String)
  | httpQuery (name : String)
  | netProtocol
  | netSrcIp
  | netSrcPort
  | netDstIp
  | netDstPort
  | tlsSni
deriving DecidableEq, Repr

/-! ## Values -/

/-- One value of a header or a query argument; an argument without `=`
is the boolean `true`. -/
inductive Arg where
  | text (s : String)
  | flag
deriving DecidableEq, Repr

def Arg.text? : Arg → Option String
  | .text s => some s
  | .flag => none

/-- What an accessor returns. A `hostPort` is a number read from the
`Host` header, which need not be a natural one. Only a name that occurs
more than once has a list of values. -/
inductive FieldValue where
  | missing
  | text (s : String)
  | flag
  | number (n : Nat)
  | hostPort (port : ℚ)
  | many (first second : Arg) (rest : List Arg)
deriving DecidableEq

def FieldValue.ofText : Option String → FieldValue
  | some s => .text s
  | none => .missing

def FieldValue.ofNumber : Option Nat → FieldValue
  | some n => .number n
  | none => .missing

/-! ## Requests -/

/-- What the accessors read of a request. `uri` is the normalised path
without arguments; `dstPort` is the port of the listener, or the one it
is mapped to. -/
structure HttpRequest where
  uri : String
  host : Option String := none
  scheme : String := "http"
  method : String := "GET"
  srcIp : Option String := none
  srcPort : Option Nat := none
  dstIp : Option String := none
  dstPort : Option Nat := none
  sni : Option String := none
  headers : String → FieldValue := fun _ => .missing
  queries : String → FieldValue := fun _ => .missing

/-- The parameters that `exec` fills in by hand. -/
structure Params where
  host : Option String
  port : Option ℚ := none
  scheme : Option String := none

/-- `split_host_port`. The text after the first colon is a port if Lua's
`tonumber` takes it. -/
def splitHostPort (tonumber : String → Option ℚ) : Option String → Option String × Option ℚ
  | none => (none, none)
  | some key =>
    if key.toList.contains ':' then
      match tonumber (String.ofList ((key.toList.dropWhile (· ≠ ':')).drop 1)) with
      | some port => (some (String.ofList (key.toList.takeWhile (· ≠ ':'))), some port)
      | none => (some key, none)
    else (some key, none)

/-- The path without its first slash, split at slashes, without trailing
empty segments. -/
def httpSegments (uri : String) : List String :=
  (((uri.toList.drop 1).splitOnP (· == '/')).map String.ofList).rdropWhile (· == "")

/-- A range of segments; it has to lie inside the path. -/
def segmentRange (segments : List String) (pos1 pos2 : Nat) : Option String :=
  if pos2 ≤ pos1 ∨ segments.length ≤ pos1 ∨ segments.length ≤ pos2 then none
  else some (tbConcat "/" ((segments.drop pos1).take (pos2 - pos1 + 1)))

/-- `get_value`. -/
def getValue (r : HttpRequest) (params : Params) : Field → FieldValue
  | .httpMethod => .text r.method
  | .httpHost => .ofText params.host
  | .httpPath => .text r.uri
  | .httpPathSegmentsLen => .number (httpSegments r.uri).length
  | .httpPathSegment pos => .ofText (httpSegments r.uri)[pos]?
  | .httpPathSegmentRange pos1 pos2 => .ofText (segmentRange (httpSegments r.uri) pos1 pos2)
  | .httpHeader name => r.headers name
  | .httpQuery name => r.queries name
  | .netProtocol => .ofText params.scheme
  | .netSrcIp => .ofText r.srcIp
  | .netSrcPort => .ofNumber r.srcPort
  | .netDstIp => .ofText r.dstIp
  | .netDstPort =>
    match params.port with
    | some port => .hostPort port
    | none => .ofNumber r.dstPort
  | .tlsSni => .ofText r.sni

/-- The parameters while the key is made. -/
def HttpRequest.keyParams (r : HttpRequest) : Params where
  host := r.host

/-- The parameters while the context is filled. -/
def HttpRequest.contextParams (tonumber : String → Option ℚ) (r : HttpRequest) : Params where
  host := (splitHostPort tonumber r.host).1
  port := (splitHostPort tonumber r.host).2
  scheme := some r.scheme

/-! ## The cache key -/

/-- A Lua error. -/
inductive Raised where
  | raised
deriving DecidableEq, Repr

/-- `table.sort` on the texts of a value list. -/
def sortTexts (args : List Arg) : List String :=
  (args.filterMap Arg.text?).insertionSort (· ≤ ·)

/-- What `visit_for_cache_key` puts before the bar. A list with a
valueless argument cannot be sorted. -/
def cachePiece : FieldValue → Except Raised String
  | .missing => .ok ""
  | .text s => .ok s
  | .flag => .ok "true"
  | .number n => .ok (toString n)
  | .hostPort port => .ok (toString port)
  | .many first second rest =>
    if .flag ∈ first :: second :: rest then .error .raised
    else .ok (tbConcat "," (sortTexts (first :: second :: rest)))

/-- `get_cache_key`; `net.protocol` is left out. -/
def getCacheKey (r : HttpRequest) (params : Params) : List Field → Except Raised String
  | [] => .ok ""
  | field :: rest =>
    if field = .netProtocol then getCacheKey r params rest
    else do
      let piece ← cachePiece (getValue r params field)
      let pieces ← getCacheKey r params rest
      return piece ++ ("|" ++ pieces)

/-! ## The context -/

inductive ContextValue where
  | text (s : String)
  | number (n : ℚ)
deriving DecidableEq

/-- The `add_value` calls `visit_for_context` makes for a field. -/
def visitForContext : FieldValue → List (Option ContextValue)
  | .missing => [none]
  | .text s => [some (.text s)]
  | .flag => [some (.text "")]
  | .number n => [some (.number n)]
  | .hostPort port => [some (.number port)]
  | .many first second rest =>
    (sortTexts (first :: second :: rest)).map fun s => some (.text s)

/-- `fill_atc_context`, as the list of `add_value` calls. -/
def fillAtcContext (r : HttpRequest) (params : Params) (fields : List Field) :
    List (Field × Option ContextValue) :=
  fields.flatMap fun field => (visitForContext (getValue r params field)).map (field, ·)

/-!
## CacheKey — what a cache key says about the context

The key puts the printed values of the fields between bars and does not
say where a value came from: a text may hold a bar, a list is joined
with commas, a missing value prints like an empty text and a valueless
argument like the text `true`. Two requests with equal keys have equal
contexts when, field by field, their values are of the same `Shape`, and
they agree in what the key does not hold at all, the scheme and the port
of the `Host` header.
-/

/-- Where a value came from. -/
inductive Kind where
  | missing
  | text
  | flag
  | number
  | hostPort (port : ℚ)
  | many
deriving DecidableEq

def FieldValue.kind : FieldValue → Kind
  | .missing => .missing
  | .text _ => .text
  | .flag => .flag
  | .number _ => .number
  | .hostPort port => .hostPort port
  | .many _ _ _ => .many

/-- The texts a value prints; a list prints several. -/
def FieldValue.printed : FieldValue → List String
  | .missing => [""]
  | .text s => [s]
  | .flag => ["true"]
  | .number n => [toString n]
  | .hostPort port => [toString port]
  | .many first second rest => sortTexts (first :: second :: rest)

/-- The kind of a value and the lengths of the texts it prints. -/
structure Shape where
  kind : Kind
  lengths : List Nat
deriving DecidableEq

def FieldValue.shape (v : FieldValue) : Shape where
  kind := v.kind
  lengths := v.printed.map String.length

/-- The port the context gets: the one in the `Host` header, else the
listener's. -/
def HttpRequest.contextPort (tonumber : String → Option ℚ) (r : HttpRequest) : Option ℚ :=
  (splitHostPort tonumber r.host).2.or (r.dstPort.map fun n => (n : ℚ))

/-- Two requests differ in nothing that the key of these fields leaves
out or blurs. -/
structure Alike (tonumber : String → Option ℚ) (fields : List Field) (r r' : HttpRequest) :
    Prop where
  scheme : .netProtocol ∈ fields → r.scheme = r'.scheme
  port : .netDstPort ∈ fields → r.contextPort tonumber = r'.contextPort tonumber
  shape : ∀ field ∈ fields, field ≠ .netProtocol →
    (getValue r r.keyParams field).shape = (getValue r' r'.keyParams field).shape

/-! ## One field -/

theorem cachePiece_eq {v : FieldValue} {piece : String} (h : cachePiece v = .ok piece) :
    piece = tbConcat "," v.printed := by
  cases v with
  | many first second rest =>
    simp only [cachePiece] at h
    split at h
    · cases h
    · exact (Except.ok.inj h).symm
  | _ => exact (Except.ok.inj h).symm

/-- What the context is given depends on the kind and the printed texts
only. -/
theorem visitForContext_congr {v v' : FieldValue} (hkind : v.kind = v'.kind)
    (hprinted : v.printed = v'.printed) : visitForContext v = visitForContext v' := by
  cases v with
  | missing =>
    cases v' <;> cases hkind
    rfl
  | text s =>
    cases v' <;> cases hkind
    rw [List.singleton_inj.mp hprinted]
  | flag =>
    cases v' <;> cases hkind
    rfl
  | number n =>
    cases v' <;> cases hkind
    rw [toString_nat_inj (List.singleton_inj.mp hprinted)]
  | hostPort port =>
    cases v' <;> cases hkind
    rfl
  | many first second rest =>
    cases v' <;> cases hkind
    exact congrArg (List.map fun s => some (ContextValue.text s)) hprinted

/-! ## All fields -/

section Requests

variable {tonumber : String → Option ℚ} {r r' : HttpRequest} {params params' : Params}
  {fields : List Field} {key : String}

/-- Equal keys of fields with equal shapes print the same texts in every
field. -/
theorem printed_eq_of_key_eq (hkey : getCacheKey r params fields = .ok key)
    (hkey' : getCacheKey r' params' fields = .ok key)
    (hshape : ∀ field ∈ fields, field ≠ .netProtocol →
      (getValue r params field).shape = (getValue r' params' field).shape) :
    ∀ field ∈ fields, field ≠ .netProtocol →
      (getValue r params field).printed = (getValue r' params' field).printed := by
  induction fields generalizing key with
  | nil => simp
  | cons head rest ih =>
    have hrest : ∀ field ∈ rest, field ≠ .netProtocol →
        (getValue r params field).shape = (getValue r' params' field).shape :=
      fun field hmem => hshape field (List.mem_cons_of_mem head hmem)
    by_cases hhead : head = .netProtocol
    · simp only [getCacheKey, hhead, if_true] at hkey hkey'
      intro field hmem hne
      rcases List.mem_cons.mp hmem with rfl | hmem
      · exact absurd hhead hne
      · exact ih hkey hkey' hrest field hmem hne
    · -- the first piece has the same length in both keys, so the keys split alike
      simp only [getCacheKey, hhead, if_false, bind, Except.bind, pure, Except.pure] at hkey hkey'
      cases hpiece : cachePiece (getValue r params head) with
      | error err => simp [hpiece] at hkey
      | ok piece =>
      cases hpieces : getCacheKey r params rest with
      | error err => simp [hpiece, hpieces] at hkey
      | ok pieces =>
      cases hpiece' : cachePiece (getValue r' params' head) with
      | error err => simp [hpiece'] at hkey'
      | ok piece' =>
      cases hpieces' : getCacheKey r' params' rest with
      | error err => simp [hpiece', hpieces'] at hkey'
      | ok pieces' =>
      simp only [hpiece, hpieces, Except.ok.injEq] at hkey
      simp only [hpiece', hpieces', Except.ok.injEq] at hkey'
      have hlens : (getValue r params head).printed.map String.length
          = (getValue r' params' head).printed.map String.length :=
        congrArg Shape.lengths (hshape head List.mem_cons_self hhead)
      rw [cachePiece_eq hpiece] at hkey
      rw [cachePiece_eq hpiece'] at hkey'
      obtain ⟨htext, htail⟩ := append_inj_of_length (hkey.trans hkey'.symm)
        (length_tbConcat_congr hlens)
      obtain ⟨-, hpiecesEq⟩ := append_inj_of_length htail rfl
      intro field hmem hne
      rcases List.mem_cons.mp hmem with rfl | hmem
      · exact tbConcat_inj htext hlens
      · exact ih hpieces (hpiecesEq ▸ hpieces') hrest field hmem hne

theorem ofText_inj {s s' : Option String}
    (hkind : (FieldValue.ofText s).kind = (FieldValue.ofText s').kind)
    (hprinted : (FieldValue.ofText s).printed = (FieldValue.ofText s').printed) : s = s' := by
  cases s with
  | none =>
    cases s' <;> cases hkind
    rfl
  | some text =>
    cases s' <;> cases hkind
    rw [List.singleton_inj.mp hprinted]

/-- The destination port reaches the context as `contextPort`. -/
theorem visitForContext_dstPort (tonumber : String → Option ℚ) (r : HttpRequest) :
    visitForContext (getValue r (r.contextParams tonumber) .netDstPort)
      = [(r.contextPort tonumber).map .number] := by
  simp only [getValue, HttpRequest.contextParams, HttpRequest.contextPort]
  cases (splitHostPort tonumber r.host).2 with
  | some port => rfl
  | none => cases r.dstPort <;> rfl

/-- The accessors that do not look at the parameters `exec` changes. -/
theorem getValue_contextParams (tonumber : String → Option ℚ) (r : HttpRequest) {field : Field}
    (hhost : field ≠ .httpHost) (hprotocol : field ≠ .netProtocol) (hport : field ≠ .netDstPort) :
    getValue r (r.contextParams tonumber) field = getValue r r.keyParams field := by
  cases field with
  | httpHost => exact absurd rfl hhost
  | netProtocol => exact absurd rfl hprotocol
  | netDstPort => exact absurd rfl hport
  | _ => rfl

/-- **Keys and contexts.** Alike requests with equal keys fill the same
context. -/
theorem fillAtcContext_eq (halike : Alike tonumber fields r r')
    (hkey : getCacheKey r r.keyParams fields = .ok key)
    (hkey' : getCacheKey r' r'.keyParams fields = .ok key) :
    fillAtcContext r (r.contextParams tonumber) fields
      = fillAtcContext r' (r'.contextParams tonumber) fields := by
  have hprinted := printed_eq_of_key_eq hkey hkey' halike.shape
  have hkind : ∀ field ∈ fields, field ≠ .netProtocol →
      (getValue r r.keyParams field).kind = (getValue r' r'.keyParams field).kind :=
    fun field hmem hne => congrArg Shape.kind (halike.shape field hmem hne)
  have hvisit : ∀ field ∈ fields, visitForContext (getValue r (r.contextParams tonumber) field)
      = visitForContext (getValue r' (r'.contextParams tonumber) field) := by
    intro field hmem
    by_cases hprotocol : field = .netProtocol
    · subst hprotocol
      simp only [getValue, HttpRequest.contextParams, halike.scheme hmem]
    by_cases hport : field = .netDstPort
    · subst hport
      rw [visitForContext_dstPort, visitForContext_dstPort, halike.port hmem]
    by_cases hhost : field = .httpHost
    · subst hhost
      have hsame : r.host = r'.host :=
        ofText_inj (hkind _ hmem hprotocol) (hprinted _ hmem hprotocol)
      simp only [getValue, HttpRequest.contextParams, hsame]
    rw [getValue_contextParams tonumber r hhost hprotocol hport,
      getValue_contextParams tonumber r' hhost hprotocol hport]
    exact visitForContext_congr (hkind field hmem hprotocol) (hprinted field hmem hprotocol)
  simp only [fillAtcContext]
  refine List.flatMap_congr fun field hmem => ?_
  rw [hvisit field hmem]

end Requests

end KongGateway.Kong.Router

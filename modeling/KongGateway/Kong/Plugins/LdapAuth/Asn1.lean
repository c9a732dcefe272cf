import KongGateway.Lib.Der

/-!
# Asn1 — messages of the plugin ldap-auth

`put_object` and the encoders write values, `get_object` and the decoders
read them, all through functions of OpenSSL, which are taken as following
DER. `ffi.string` without a length reads memory up to the first zero byte:
this is how the header in `put_object` and the contents of an octet string
are recovered.
-/

namespace KongGateway.Kong.Plugins.LdapAuth

open Bytes Numerals

abbrev Text := List Byte

/-- A string; LuaJIT has none of 2 GiB. -/
structure LuaString where
  bytes : Text
  length_lt : bytes.length < 2 ^ 31

/-- `CLASS` -/
inductive Class where
  | universal
  | application
  | contextSpecific
  | «private»
  deriving DecidableEq

def Class.value : Class → Nat
  | .universal => 0x00
  | .application => 0x40
  | .contextSpecific => 0x80
  | .private => 0xc0

namespace Tag

def integer : Nat := 2
def octetString : Nat := 4
def enumerated : Nat := 10
def sequence : Nat := 16

end Tag

/-- The integers of a C `long`. -/
def InLong (x : Int) : Prop := -2 ^ 63 ≤ x ∧ x < 2 ^ 63

/-- What `ASN1_get_object` returns and leaves behind its pointers, with the
octets that the string pointer was moved on. -/
structure GetObject where
  ret : Nat
  tag : Nat
  cls : Nat
  len : Nat
  hl : Nat

/-- The functions of OpenSSL, on the octets that they write or may read. On
well-formed octets they follow DER. -/
structure OpenSsl where
  putObject : (constructed : Bool) → (length tag cls : Nat) → Text
  getObject : Text → GetObject
  i2dInteger : Int → Text
  i2dEnumerated : Int → Text
  i2dOctetString : Text → Text
  d2iInteger : Text → Option Int
  d2iEnumerated : Text → Option Int
  d2iOctetString : Text → Option Text
  integerGet : Int → Int
  enumeratedGet : Int → Int
  putObject_eq : ∀ constructed length tag (cls : Class), tag < 31 → length < 2 ^ 31 →
    putObject constructed length tag cls.value = Der.header tag cls.value constructed length
  getObject_eq : ∀ constructed tag (cls : Class) contents rest, tag < 31 →
    contents.length < 2 ^ 31 →
    getObject (Der.header tag cls.value constructed contents.length ++ (contents ++ rest))
      = ⟨if constructed then 0x20 else 0, tag, cls.value, contents.length,
          (Der.header tag cls.value constructed contents.length).length⟩
  i2dInteger_eq : ∀ x, InLong x → i2dInteger x = Der.value Tag.integer (Der.integerOctets x)
  i2dEnumerated_eq : ∀ x, InLong x →
    i2dEnumerated x = Der.value Tag.enumerated (Der.integerOctets x)
  i2dOctetString_eq : ∀ s, s.length < 2 ^ 31 → i2dOctetString s = Der.value Tag.octetString s
  d2iInteger_eq : ∀ x, InLong x → d2iInteger (Der.value Tag.integer (Der.integerOctets x)) = some x
  d2iEnumerated_eq : ∀ x, InLong x →
    d2iEnumerated (Der.value Tag.enumerated (Der.integerOctets x)) = some x
  d2iOctetString_eq : ∀ s, s.length < 2 ^ 31 →
    d2iOctetString (Der.value Tag.octetString s) = some s
  integerGet_eq : ∀ x, InLong x → integerGet x = x
  enumeratedGet_eq : ∀ x, InLong x → enumeratedGet x = x

/-! ## The functions of the source -/

/-- `ffi.string` without a length. -/
def ffiString (memory : Text) : Text := memory.takeWhile (· ≠ 0)

/-- The table of `asn1_get_object`. -/
structure Obj where
  tag : Nat
  cls : Nat
  len : Nat
  offset : Nat
  hl : Nat
  cons : Bool
  deriving DecidableEq

section

variable (ssl : OpenSsl)

/-- `asn1_get_object` -/
def asn1GetObject (der : Text) (start stop : Option Nat) : Except Text Obj :=
  let start := start.getD 0
  let stop := stop.getD der.length
  if stop ≤ start ∨ der.length < stop then .error (ofText "invalid offset")
  else
    let got := ssl.getObject ((der.take stop).drop start)
    if got.ret &&& 0x80 = 0x80 then
      .error (ofText "der with error encoding: " ++ decimal got.ret)
    else
      .ok
        { tag := got.tag
          cls := got.cls
          len := got.len
          offset := start + got.hl
          hl := got.hl
          cons := got.ret &&& 0x20 = 0x20 }

/-- `asn1_put_object`; `behind` is the memory behind the buffer. The buffer has
as many bytes as the data, whatever the header needs. -/
def asn1PutObject (behind : Text) (tag : Nat) (cls : Class) (constructed : Bool)
    (data : Option Text) (len : Option Nat) : Except Text Text :=
  let len := (data.map List.length).getD (len.getD 0)
  if len = 0 then .error (ofText "invalid object length")
  else
    let memory := List.replicate len 0 ++ behind
    let header := ssl.putObject constructed len tag cls.value
    let outbuf := header ++ memory.drop header.length
    .ok (ffiString outbuf ++ data.getD [])

/-- The values that are encoded and decoded. Numbers are those that are
integers. -/
inductive Value where
  | number (x : Int)
  | text (s : Text)
  deriving DecidableEq

/-- `encode`. The outer error is raised, `none` is for a tag without an encoder. -/
def encode (behind : Text) (val : Value) (tag : Option Nat) :
    Except String (Option (Except Text Text)) :=
  let tag := tag.getD (match val with | .text _ => Tag.octetString | .number _ => Tag.integer)
  if tag = Tag.integer then
    match val with
    | .number x => .ok (some (.ok (ssl.i2dInteger x)))
    | .text _ => .error "cannot convert 'string' to 'long'"
  else if tag = Tag.octetString then
    match val with
    | .number _ => .error "attempt to get length of local 'val' (a number value)"
    | .text s => .ok (some (.ok (ssl.i2dOctetString s)))
  else if tag = Tag.enumerated then
    match val with
    | .number x => .ok (some (.ok (ssl.i2dEnumerated x)))
    | .text _ => .error "cannot convert 'string' to 'long'"
  else if tag = Tag.sequence then
    let data := match val with | .number _ => none | .text s => some s
    .ok (some (asn1PutObject ssl behind Tag.sequence .universal true data none))
  else .ok none

/-- `decoder[tag]` on the octets from the offset. The data of an
`ASN1_OCTET_STRING` has a zero byte behind it. -/
def decoder (tag : Nat) (octets : Text) : Option (Except Text Value) :=
  if tag = Tag.octetString then
    match ssl.d2iOctetString octets with
    | none => some (.error (ofText "failed to decode ASN1_OCTET_STRING"))
    | some data => some (.ok (.text (ffiString (data ++ [0]))))
  else if tag = Tag.integer then
    match ssl.d2iInteger octets with
    | none => some (.error (ofText "failed to decode ASN1_INTEGER"))
    | some typ => some (.ok (.number (ssl.integerGet typ)))
  else if tag = Tag.enumerated then
    match ssl.d2iEnumerated octets with
    | none => some (.error (ofText "failed to decode ASN1_ENUMERATED"))
    | some typ => some (.ok (.number (ssl.enumeratedGet typ)))
  else none

/-- `decode`: an error alone, or the next offset with a value or an error. The
assertion of the decoders holds, because `asn1_get_object` has refused
other offsets. -/
def decode (der : Text) (offset : Nat) : Except Text (Nat × Except Text Value) :=
  match asn1GetObject ssl der (some offset) none with
  | .error err => .error err
  | .ok obj =>
    match decoder ssl obj.tag ((der.drop offset).take (obj.hl + obj.len)) with
    | none => .error (ofText "unknown tag type: " ++ decimal obj.tag)
    | some ret => .ok (obj.offset + obj.len, ret)

end

/-! ## OpenSSL by DER -/

theorem Class.value_mod (cls : Class) : cls.value % 64 = 0 ∧ cls.value < 256 := by
  cases cls <;> decide

theorem length_lt_of_inLong {x : Int} (h : InLong x) : (Der.integerOctets x).length < 2 ^ 31 := by
  obtain ⟨hlo, hhi⟩ := h
  have hle := @Der.length_integerOctets_le 7 x (by omega) (by omega)
  omega

theorem length_bound : (2 : Nat) ^ 31 ≤ 256 ^ 126 :=
  (by decide : (2 : Nat) ^ 31 ≤ 256 ^ 4).trans (Nat.pow_le_pow_right (by decide) (by decide))

/-- The contents of a primitive value, read back. -/
def readValue (tag : Nat) (s : Text) : Option Text :=
  match Der.parseHeader s with
  | none => none
  | some found =>
    if found.tag = tag ∧ found.cls = 0 ∧ found.constructed = false
        ∧ found.octets + found.length ≤ s.length then
      some ((s.drop found.octets).take found.length)
    else none

theorem readValue_value {tag : Nat} (htag : tag < 31) {s : Text} (hs : s.length < 2 ^ 31) :
    readValue tag (Der.value tag s) = some s := by
  have hparse := @Der.parseHeader_header tag 0 (by omega) rfl (by decide) false s.length
    (lt_of_lt_of_le hs length_bound) s
  unfold readValue Der.value
  rw [hparse]
  dsimp only
  rw [if_pos ⟨rfl, rfl, rfl, by rw [List.length_append]⟩, List.drop_left, List.take_length]

/-- The functions as DER has them; headers with high tag numbers are taken for
errors. -/
def OpenSsl.der : OpenSsl where
  putObject constructed length tag cls := Der.header tag cls constructed length
  getObject s :=
    match Der.parseHeader s with
    | none => ⟨0x80, 0, 0, 0, 0⟩
    | some found =>
      if s.length < found.octets + found.length ∨ found.tag = 31 then ⟨0x80, 0, 0, 0, 0⟩
      else
        ⟨if found.constructed then 0x20 else 0, found.tag, found.cls, found.length, found.octets⟩
  i2dInteger x := Der.value Tag.integer (Der.integerOctets x)
  i2dEnumerated x := Der.value Tag.enumerated (Der.integerOctets x)
  i2dOctetString s := Der.value Tag.octetString s
  d2iInteger s := (readValue Tag.integer s).map Der.integerValue
  d2iEnumerated s := (readValue Tag.enumerated s).map Der.integerValue
  d2iOctetString s := readValue Tag.octetString s
  integerGet x := if -2 ^ 63 ≤ x ∧ x < 2 ^ 63 then x else -1
  enumeratedGet x := if -2 ^ 63 ≤ x ∧ x < 2 ^ 63 then x else -1
  putObject_eq _ _ _ _ _ _ := rfl
  getObject_eq constructed tag cls contents rest htag hlength := by
    rw [Der.parseHeader_header (by omega) cls.value_mod.1 cls.value_mod.2 constructed
      (lt_of_lt_of_le hlength length_bound)]
    dsimp only
    rw [if_neg]
    simp only [List.length_append]
    omega
  i2dInteger_eq _ _ := rfl
  i2dEnumerated_eq _ _ := rfl
  i2dOctetString_eq _ _ := rfl
  d2iInteger_eq x hx := by
    rw [readValue_value (by decide) (length_lt_of_inLong hx), Option.map_some,
      Der.integerValue_integerOctets]
  d2iEnumerated_eq x hx := by
    rw [readValue_value (by decide) (length_lt_of_inLong hx), Option.map_some,
      Der.integerValue_integerOctets]
  d2iOctetString_eq s hs := readValue_value (by decide) hs
  integerGet_eq x hx := if_pos hx
  enumeratedGet_eq x hx := if_pos hx

end KongGateway.Kong.Plugins.LdapAuth

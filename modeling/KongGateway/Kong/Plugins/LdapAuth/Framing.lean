import KongGateway.Kong.Plugins.LdapAuth.Asn1

/-!
# Asn1 — framing

A header comes out of `put_object` as it was written when it has no zero
byte in it and a zero byte behind it. Integers are decoded as they were
encoded, and so are the octet strings without a zero byte.
-/

namespace KongGateway.Kong.Plugins.LdapAuth

open Bytes Numerals

theorem ffiString_append_eq_iff {a b : Text} :
    ffiString (a ++ b) = a ↔ 0 ∉ a ∧ b.head?.getD 0 = 0 := by
  induction a with
  | nil =>
    cases b with
    | nil => simp [ffiString]
    | cons c b => by_cases hc : c = 0 <;> simp [ffiString, hc]
  | cons c a ih =>
    by_cases hc : c = 0
    · subst hc
      simp [ffiString]
    · have hcons : ffiString (c :: a ++ b) = c :: ffiString (a ++ b) := by
        simp [ffiString, hc]
      rw [hcons, List.cons.injEq, ih, List.mem_cons, not_or]
      simp [Ne.symm hc]

theorem ffiString_terminated_eq_iff {s : Text} : ffiString (s ++ [0]) = s ↔ 0 ∉ s := by
  rw [ffiString_append_eq_iff]
  exact and_iff_left rfl

/-! ## Headers -/

/-- The header of the payload, and the payload. -/
def PutFramed (ssl : OpenSsl) (behind : Text) (tag : Nat) (cls : Class) (constructed : Bool)
    (p : Text) : Prop :=
  asn1PutObject ssl behind tag cls constructed (some p) none
    = .ok (Der.header tag cls.value constructed p.length ++ p)

/-- The identifier is not zero, the length has no zero digit to the base 256, and
the byte behind the header is zero: the two bytes of a short header have one of
the buffer behind them from three bytes of payload on. -/
structure HeaderKept (behind : Text) (tag : Nat) (cls : Class) (constructed : Bool) (p : Text) :
    Prop where
  identifier : ¬ (tag = 0 ∧ cls = .universal ∧ constructed = false)
  digits : 0 ∉ Nat.digits 256 p.length
  terminated : 3 ≤ p.length ∨ (behind.drop (2 - p.length)).head?.getD 0 = 0

theorem identifier_eq_zero_iff {tag : Nat} (htag : tag < 31) (cls : Class) (constructed : Bool) :
    Der.identifier tag cls.value constructed = 0
      ↔ tag = 0 ∧ cls = .universal ∧ constructed = false := by
  have hvalue : cls.value = 0 ↔ cls = .universal := by cases cls <;> decide
  have hbound := cls.value_mod
  have hval : (Der.identifier tag cls.value constructed).val
      = cls.value + (if constructed then 32 else 0) + tag := by
    refine Nat.mod_eq_of_lt ?_
    split <;> omega
  rw [Fin.ext_iff, hval, ← hvalue]
  cases constructed with
  | false => simp; omega
  | true => simp

theorem zero_mem_bytes_iff (n : Nat) : (0 : Byte) ∈ bytes n ↔ 0 ∈ Nat.digits 256 n := by
  unfold bytes
  rw [List.mem_map]
  constructor
  · rintro ⟨d, hd, hzero⟩
    rw [List.mem_reverse] at hd
    have hlt := Nat.digits_lt_base (by decide : 1 < 256) hd
    have hval : d % 256 = 0 := congrArg Fin.val hzero
    rw [Nat.mod_eq_of_lt hlt] at hval
    rwa [hval] at hd
  · exact fun h => ⟨0, List.mem_reverse.mpr h, rfl⟩

theorem zero_mem_lengthOctets_iff {n : Nat} (hn : n ≠ 0) (hlt : n < 256 ^ 126) :
    (0 : Byte) ∈ Der.lengthOctets n ↔ 0 ∈ Nat.digits 256 n := by
  unfold Der.lengthOctets
  split
  · have hval : (Fin.ofNat 256 n).val = n := Nat.mod_eq_of_lt (by omega)
    rw [Nat.digits_of_lt 256 n hn (by omega), List.mem_singleton, List.mem_singleton, Fin.ext_iff,
      hval]
    rfl
  · have hcount := Der.length_bytes_lt hlt
    have hval : (Fin.ofNat 256 (128 + (bytes n).length)).val = 128 + (bytes n).length :=
      Nat.mod_eq_of_lt (by omega)
    rw [List.mem_cons, zero_mem_bytes_iff, or_iff_right]
    intro hzero
    rw [← hzero] at hval
    simp at hval
    omega

/-- The header is longer than two bytes only before payloads that are longer. -/
theorem length_lengthOctets {n : Nat} (hlt : n < 2 ^ 31) :
    (n < 128 → (Der.lengthOctets n).length = 1) ∧ (128 ≤ n → (Der.lengthOctets n).length ≤ 5) := by
  unfold Der.lengthOctets
  constructor
  · intro hn
    rw [if_pos hn]
    rfl
  · intro hn
    have hle := @length_bytes_le n 4 (by omega)
    rw [if_neg (by omega), List.length_cons]
    omega

theorem putFramed_iff (ssl : OpenSsl) (behind : Text) {tag : Nat} (htag : tag < 31) (cls : Class)
    (constructed : Bool) (p : LuaString) (hp : p.bytes ≠ []) :
    PutFramed ssl behind tag cls constructed p.bytes
      ↔ HeaderKept behind tag cls constructed p.bytes := by
  have hne : p.bytes.length ≠ 0 := fun h => hp (List.length_eq_zero_iff.mp h)
  have hlt := p.length_lt
  have hput : asn1PutObject ssl behind tag cls constructed (some p.bytes) none
      = .ok (ffiString (Der.header tag cls.value constructed p.bytes.length
          ++ (List.replicate p.bytes.length 0 ++ behind).drop
            (Der.header tag cls.value constructed p.bytes.length).length) ++ p.bytes) := by
    simp only [asn1PutObject, Option.map_some, Option.getD_some, if_neg hne,
      ssl.putObject_eq constructed _ tag cls htag hlt]
  have hbehind : ((List.replicate p.bytes.length 0 ++ behind).drop
        (Der.header tag cls.value constructed p.bytes.length).length).head?.getD 0 = 0
      ↔ 3 ≤ p.bytes.length ∨ (behind.drop (2 - p.bytes.length)).head?.getD 0 = 0 := by
    obtain ⟨hshort, hlong⟩ := length_lengthOctets hlt
    have hlength : (Der.header tag cls.value constructed p.bytes.length).length
        = (Der.lengthOctets p.bytes.length).length + 1 := rfl
    rw [hlength]
    by_cases hthree : 3 ≤ p.bytes.length
    · have hinside : (Der.lengthOctets p.bytes.length).length + 1 < p.bytes.length := by
        by_cases hn : p.bytes.length < 128
        · have hone := hshort hn
          omega
        · have hfive := hlong (by omega)
          omega
      refine iff_of_true ?_ (Or.inl hthree)
      rw [List.drop_append_of_le_length (by rw [List.length_replicate]; omega), List.drop_replicate,
        List.head?_append]
      obtain ⟨k, hk⟩ := Nat.exists_eq_succ_of_ne_zero (Nat.sub_ne_zero_of_lt hinside)
      rw [hk]
      rfl
    · have hone := hshort (by omega)
      rw [or_iff_right hthree, hone, List.drop_append, List.length_replicate,
        List.drop_eq_nil_of_le (by rw [List.length_replicate]; omega), List.nil_append]
  unfold PutFramed
  rw [hput, Except.ok.injEq, List.append_left_inj, ffiString_append_eq_iff, hbehind, Der.header,
    List.mem_cons, not_or, zero_mem_lengthOctets_iff hne (lt_of_lt_of_le hlt length_bound),
    eq_comm (a := (0 : Byte)), identifier_eq_zero_iff htag]
  exact ⟨fun h => ⟨h.1.1, h.1.2, h.2⟩, fun h => ⟨⟨h.identifier, h.digits⟩, h.terminated⟩⟩

/-! ## Values -/

/-- What is encoded is decoded, up to the end of its encoding. -/
def RoundTrips (ssl : OpenSsl) (behind : Text) (x : Value) : Prop :=
  ∃ der, encode ssl behind x none = .ok (some (.ok der))
    ∧ decode ssl der 0 = .ok (der.length, .ok x)

theorem decode_value (ssl : OpenSsl) {tag : Nat} (htag : tag < 31) {contents : Text}
    (hlength : contents.length < 2 ^ 31) {ret : Except Text Value}
    (h : decoder ssl tag (Der.value tag contents) = some ret) :
    decode ssl (Der.value tag contents) 0 = .ok ((Der.value tag contents).length, ret) := by
  have hget := ssl.getObject_eq false tag .universal contents [] htag hlength
  rw [List.append_nil] at hget
  have hvalue : Der.value tag contents
      = Der.header tag Class.universal.value false contents.length ++ contents := rfl
  have hne : ¬ ((Der.value tag contents).length ≤ 0
      ∨ (Der.value tag contents).length < (Der.value tag contents).length) := by
    rw [hvalue, Der.header, List.cons_append, List.length_cons]
    omega
  have hobj : asn1GetObject ssl (Der.value tag contents) (some 0) none
      = .ok ⟨tag, Class.universal.value, contents.length,
          0 + (Der.header tag Class.universal.value false contents.length).length,
          (Der.header tag Class.universal.value false contents.length).length, false⟩ := by
    simp only [asn1GetObject, Option.getD_some, Option.getD_none, if_neg hne, List.take_length,
      List.drop_zero]
    rw [hvalue, hget]
    dsimp only
    rw [if_neg (by decide), decide_eq_false (by decide)]
  have htake : ((Der.value tag contents).drop 0).take
      ((Der.header tag Class.universal.value false contents.length).length + contents.length)
      = Der.value tag contents := by
    rw [List.drop_zero, hvalue, ← List.length_append, List.take_length]
  unfold decode
  rw [hobj]
  dsimp only
  rw [htake, h, hvalue, List.length_append, Nat.zero_add]

theorem roundTrips_text_iff (ssl : OpenSsl) (behind : Text) (s : LuaString) :
    RoundTrips ssl behind (.text s.bytes) ↔ 0 ∉ s.bytes := by
  have hencode : encode ssl behind (.text s.bytes) none
      = .ok (some (.ok (ssl.i2dOctetString s.bytes))) := rfl
  rw [ssl.i2dOctetString_eq _ s.length_lt] at hencode
  have hdecoder : decoder ssl Tag.octetString (Der.value Tag.octetString s.bytes)
      = some (.ok (.text (ffiString (s.bytes ++ [0])))) := by
    simp only [decoder, if_true, ssl.d2iOctetString_eq _ s.length_lt]
  have hdecode := decode_value ssl (by decide) s.length_lt hdecoder
  rw [← ffiString_terminated_eq_iff]
  constructor
  · rintro ⟨der, hder, hround⟩
    rw [hencode] at hder
    cases hder
    rw [hdecode] at hround
    injection hround with hpair
    injection hpair with _ hret
    injection hret with hvalue
    injection hvalue
  · intro h
    rw [h] at hdecode
    exact ⟨_, hencode, hdecode⟩

theorem roundTrips_number (ssl : OpenSsl) (behind : Text) {x : Int} (hx : InLong x) :
    RoundTrips ssl behind (.number x) := by
  have hdecoder : decoder ssl Tag.integer (Der.value Tag.integer (Der.integerOctets x))
      = some (.ok (.number x)) := by
    have htag : Tag.integer ≠ Tag.octetString := by decide
    simp only [decoder, if_neg htag, if_true, ssl.d2iInteger_eq x hx, ssl.integerGet_eq x hx]
  have hencode : encode ssl behind (.number x) none = .ok (some (.ok (ssl.i2dInteger x))) := rfl
  rw [ssl.i2dInteger_eq x hx] at hencode
  exact ⟨_, hencode, decode_value ssl (by decide) (length_lt_of_inLong hx) hdecoder⟩

/-- Payloads are framed when the header is kept; strings without a zero byte and
integers are decoded as they were encoded. -/
theorem asn1_framed_iff (ssl : OpenSsl) (behind : Text) :
    (∀ tag cls constructed (p : LuaString), tag < 31 → p.bytes ≠ [] →
        (PutFramed ssl behind tag cls constructed p.bytes
          ↔ HeaderKept behind tag cls constructed p.bytes))
      ∧ (∀ s : LuaString, RoundTrips ssl behind (.text s.bytes) ↔ 0 ∉ s.bytes)
      ∧ (∀ x, InLong x → RoundTrips ssl behind (.number x)) :=
  ⟨fun _ cls constructed p htag hp => putFramed_iff ssl behind htag cls constructed p hp,
    fun s => roundTrips_text_iff ssl behind s, fun _ hx => roundTrips_number ssl behind hx⟩

/-- A payload of three bytes, a string with a zero byte and a negative number. -/
theorem asn1_framed_der :
    PutFramed OpenSsl.der [] 0 .contextSpecific false [97, 98, 99]
      ∧ ¬ RoundTrips OpenSsl.der [] (.text [97, 0]) ∧ RoundTrips OpenSsl.der [] (.number (-129)) :=
  have h := asn1_framed_iff OpenSsl.der []
  ⟨(h.1 0 .contextSpecific false ⟨[97, 98, 99], by decide⟩ (by decide) (by decide)).mpr
      ⟨by decide, by decide, Or.inl (by decide)⟩,
    fun hround => (h.2.1 ⟨[97, 0], by decide⟩).mp hround (by decide), h.2.2 (-129) ⟨by decide, by decide⟩⟩

/-- A payload of 256 bytes comes with half a header, and a string with a zero byte
comes back cut. -/
theorem asn1_not_framed :
    ¬ PutFramed OpenSsl.der [0] 0 .contextSpecific false (List.replicate 256 97)
      ∧ ¬ RoundTrips OpenSsl.der [0] (.text [97, 0, 98]) := by
  constructor
  · intro h
    have hkept := (putFramed_iff OpenSsl.der [0] (by decide) .contextSpecific false
      ⟨List.replicate 256 97, by rw [List.length_replicate]; decide⟩
      (List.cons_ne_nil 97 (List.replicate 255 97))).mp h
    have hdigits := hkept.digits
    rw [List.length_replicate] at hdigits
    exact hdigits (by simp)
  · intro h
    exact (roundTrips_text_iff OpenSsl.der [0] ⟨[97, 0, 98], by decide⟩).mp h (by decide)

end KongGateway.Kong.Plugins.LdapAuth

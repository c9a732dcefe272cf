import KongGateway.Lib.Framing
import KongGateway.Kong.Tools.AwsStream

/-!
# AwsStream — headers

A header is the length of its key, the key, the type of its value and the
value. The loop over the headers reads such headers up to the first that
reaches the declared length, and raises an error when there is something
else.
-/

namespace KongGateway.Kong.Tools.AwsStream

open Bytes Numerals

/-- A header whose lengths fit their fields. -/
structure Header where
  key : Text
  value : HeaderValue
  key_lt : key.length < 256
  value_lt : ∀ s, value = .text s → s.length < 65536

/-- The key of `_HEADER_EXTRACTORS`. -/
def HeaderValue.type : HeaderValue → Nat
  | .bool true => 0
  | .bool false => 1
  | .text _ => 7

/-- The bytes behind the type. -/
def HeaderValue.bytes : HeaderValue → Text
  | .bool _ => []
  | .text s => padded 2 s.length ++ s

def encodeHeader (h : Header) : Text :=
  padded 1 h.key.length ++ (h.key ++ (padded 1 h.value.type ++ h.value.bytes))

theorem HeaderValue.type_lt (value : HeaderValue) : value.type < 256 := by
  cases value with
  | bool v => cases v <;> decide
  | text s => exact (by decide : 7 < 256)

@[simp] theorem HeaderValue.bytes_bool (v : Bool) : (HeaderValue.bool v).bytes = [] := rfl

theorem length_encodeHeader (h : Header) :
    (encodeHeader h).length = 2 + (h.key.length + h.value.bytes.length) := by
  have hkey := @length_padded 1 h.key.length h.key_lt
  have htype := @length_padded 1 h.value.type h.value.type_lt
  simp only [encodeHeader, List.length_append]
  omega

theorem firstInt_padded {k n : Nat} (hk : 0 < k) (h : n < 256 ^ k) (rest : Text) (rc : Nat) :
    firstInt (8 * k) (holds (padded k n ++ rest) rc) = .ok (some n, holds rest (k + rc)) := by
  have hlength := length_padded h
  rw [firstInt_of_le hk (by rw [List.length_append]; omega) rc, List.take_left' hlength,
    List.drop_left' hlength, number_padded]

theorem nextUtf8_text (s rest : Text) (rc : Nat) :
    nextUtf8 (some ((s.length : Nat) : Int)) (holds (s ++ rest) rc)
      = .ok (s, holds rest (s.length + rc)) := by
  rw [nextUtf8_of_le (by rw [List.length_append]; omega) rc, List.take_left, List.drop_left]

/-- What `next_int` gives when there are bytes for it. -/
theorem firstInt_ok {b : Text} {rc k : Nat} (hk : 0 < k) {n : Option Nat} {s' : Stream}
    (h : firstInt (8 * k) (holds b rc) = .ok (n, s')) :
    (b.length < k ∧ n = none)
      ∨ ∃ v rest, v < 256 ^ k ∧ b = padded k v ++ rest ∧ n = some v ∧ s' = holds rest (k + rc) := by
  by_cases hlength : k ≤ b.length
  · right
    rw [firstInt_of_le hk hlength rc] at h
    cases h
    have htake : (b.take k).length = k := by
      rw [List.length_take]
      omega
    refine ⟨number (b.take k), b.drop k, ?_, ?_, rfl, rfl⟩
    · have hlt := number_lt (b.take k)
      rwa [htake] at hlt
    · have hpadded := padded_number (b.take k)
      rw [htake] at hpadded
      rw [hpadded, List.take_append_drop]
  · left
    rw [firstInt_of_lt hk (by omega) rc] at h
    cases h
    exact ⟨by omega, rfl⟩

/-! ## One header -/

theorem headerExtractor_bytes {value : HeaderValue}
    (hvalue : ∀ s, value = .text s → s.length < 65536) (rest : Text) (rc : Nat) :
    headerExtractor (some value.type) (holds (value.bytes ++ rest) rc)
      = .ok ((value, value.bytes.length), holds rest (value.bytes.length + rc)) := by
  cases value with
  | bool v =>
    rw [HeaderValue.bytes_bool, List.nil_append, List.length_nil, Nat.zero_add]
    cases v <;> rfl
  | text s =>
    have hs := hvalue s rfl
    have hlen := firstInt_padded (by decide : 0 < 2) (by omega : s.length < 256 ^ 2) (s ++ rest) rc
    have htext := nextUtf8_text s rest (2 + rc)
    have hlength := @length_padded 2 s.length (by omega)
    have hcount : (HeaderValue.text s).bytes.length = s.length + 2 := by
      rw [HeaderValue.bytes, List.length_append, hlength, Nat.add_comm]
    rw [hcount, HeaderValue.bytes, List.append_assoc, HeaderValue.type, headerExtractor,
      bind_of_ok hlen, Option.map_some, Int.ofNat_eq_natCast, bind_of_ok htext, Nat.add_assoc]
    rfl

theorem readHeader_encode (h : Header) (rest : Text) (rc : Nat) :
    readHeader (holds (encodeHeader h ++ rest) rc)
      = .ok ((h.key, h.value, h.key.length + h.value.bytes.length),
          holds rest ((encodeHeader h).length + rc)) := by
  have hcount : h.value.bytes.length + (1 + (h.key.length + (1 + rc)))
      = (encodeHeader h).length + rc := by
    rw [length_encodeHeader]
    omega
  have hkeyLen : firstInt 8 _ = _ := firstInt_padded Nat.one_pos h.key_lt
    (h.key ++ (padded 1 h.value.type ++ (h.value.bytes ++ rest))) rc
  have hkey := nextUtf8_text h.key (padded 1 h.value.type ++ (h.value.bytes ++ rest)) (1 + rc)
  have htype : firstInt 8 _ = _ := firstInt_padded Nat.one_pos h.value.type_lt
    (h.value.bytes ++ rest) (h.key.length + (1 + rc))
  have hvalue := headerExtractor_bytes h.value_lt rest (1 + (h.key.length + (1 + rc)))
  rw [← hcount, readHeader, encodeHeader, List.append_assoc, List.append_assoc, List.append_assoc,
    bind_of_ok hkeyLen, Option.map_some, Int.ofNat_eq_natCast, bind_of_ok hkey, bind_of_ok htype,
    bind_of_ok hvalue]
  rfl

theorem headerExtractor_ok {type : Option Nat} {b : Text} {rc n : Nat} {value : HeaderValue}
    {s' : Stream} (h : headerExtractor type (holds b rc) = .ok ((value, n), s')) :
    type = some value.type ∧ (∀ s, value = .text s → s.length < 65536)
      ∧ ∃ rest, b = value.bytes ++ rest ∧ n = value.bytes.length
        ∧ s' = holds rest (value.bytes.length + rc) := by
  have hbool : ∀ v : Bool, (∀ s, HeaderValue.bool v = .text s → s.length < 65536)
      ∧ ∃ rest, b = (HeaderValue.bool v).bytes ++ rest ∧ 0 = (HeaderValue.bool v).bytes.length
        ∧ holds b rc = holds rest ((HeaderValue.bool v).bytes.length + rc) := by
    intro v
    refine ⟨?_, b, rfl, rfl, ?_⟩
    · intro s hs
      cases hs
    · rw [HeaderValue.bytes_bool, List.length_nil, Nat.zero_add]
  unfold headerExtractor at h
  split at h
  · cases h
    exact ⟨rfl, hbool true⟩
  · cases h
    exact ⟨rfl, hbool false⟩
  · obtain ⟨len, s₁, hlen, hrest⟩ := bind_eq_ok h
    obtain ⟨text, s₂, htext, hret⟩ := bind_eq_ok hrest
    rcases @firstInt_ok b rc 2 (by decide) len s₁ hlen with ⟨-, rfl⟩ | ⟨v, more, hv, rfl, rfl, rfl⟩
    · -- a length that is missing
      cases htext
    · obtain ⟨n, hn, hle, rfl, rfl⟩ := nextUtf8_ok htext
      obtain rfl : v = n := Int.ofNat.inj (Option.some.inj hn)
      cases hret
      have htake : (more.take v).length = v := by
        rw [List.length_take]
        omega
      have hbytes : (HeaderValue.text (more.take v)).bytes = padded 2 v ++ more.take v := by
        rw [HeaderValue.bytes, htake]
      have hpadded := length_padded hv
      refine ⟨rfl, ?_, more.drop v, ?_, ?_, ?_⟩
      · intro s hs
        cases hs
        rw [htake]
        exact hv
      · rw [hbytes, List.append_assoc, List.take_append_drop]
      · rw [hbytes, List.length_append, hpadded, htake, Nat.add_comm]
        rfl
      · rw [hbytes, List.length_append, hpadded, htake]
        exact holds_congr (by omega)
  · cases h

theorem readHeader_ok {b key : Text} {value : HeaderValue} {rc n : Nat} {s' : Stream}
    (h : readHeader (holds b rc) = .ok ((key, value, n), s')) :
    ∃ (hd : Header) (rest : Text), b = encodeHeader hd ++ rest ∧ key = hd.key ∧ value = hd.value
      ∧ n = hd.key.length + hd.value.bytes.length
      ∧ s' = holds rest ((encodeHeader hd).length + rc) := by
  obtain ⟨keyLen, s₁, hkeyLen, h₁⟩ := bind_eq_ok h
  obtain ⟨key', s₂, hkey, h₂⟩ := bind_eq_ok h₁
  obtain ⟨type, s₃, htype, h₃⟩ := bind_eq_ok h₂
  obtain ⟨⟨value', m⟩, s₄, hvalue, h₄⟩ := bind_eq_ok h₃
  cases h₄
  rcases @firstInt_ok b rc 1 Nat.one_pos keyLen s₁ hkeyLen with ⟨-, rfl⟩ | ⟨v, b₁, hv, rfl, rfl, rfl⟩
  · cases hkey
  obtain ⟨k, hk, hle, rfl, rfl⟩ := nextUtf8_ok hkey
  obtain rfl : v = k := Int.ofNat.inj (Option.some.inj hk)
  have htake : (b₁.take v).length = v := by
    rw [List.length_take]
    omega
  rcases @firstInt_ok (b₁.drop v) _ 1 Nat.one_pos type s₃ htype with
    ⟨-, rfl⟩ | ⟨t, b₂, ht, hb₂, rfl, rfl⟩
  · cases hvalue
  obtain ⟨hsome, hlt, rest, rfl, rfl, rfl⟩ := headerExtractor_ok hvalue
  obtain rfl := Option.some.inj hsome
  let hd : Header := ⟨b₁.take v, value, by rw [htake]; exact hv, hlt⟩
  refine ⟨hd, rest, ?_, rfl, rfl, ?_, ?_⟩
  · rw [encodeHeader]
    simp only [hd, htake, List.append_assoc]
    rw [← hb₂, List.take_append_drop]
  · simp only [hd, htake, Option.getD_some]
  · rw [length_encodeHeader]
    simp only [hd, htake]
    exact holds_congr (by omega)

/-! ## The loop -/

/-- The bytes of headers. -/
def headerBytes (headers : List Header) : Text := Framing.stream encodeHeader headers

@[simp] theorem headerBytes_nil : headerBytes [] = [] := rfl

@[simp] theorem headerBytes_cons (h : Header) (headers : List Header) :
    headerBytes (h :: headers) = encodeHeader h ++ headerBytes headers := rfl

/-- The last of the headers is the first that reaches the length. -/
def Covers : Nat → List Header → Prop
  | need, [] => need = 0
  | need, h :: headers => 0 < need ∧ Covers (need - (encodeHeader h).length) headers

/-- The table with headers set in it. -/
def setHeaders (t : LuaTable Text HeaderValue) (headers : List Header) :
    LuaTable Text HeaderValue :=
  headers.foldl (fun t h => t.set h.key (some h.value)) t

theorem readHeaders_of_covers {need read : Nat} {headers : List Header}
    (h : Covers (need - read) headers) (t : LuaTable Text HeaderValue) (rest : Text) (rc : Nat) :
    readHeaders need read t (holds (headerBytes headers ++ rest) rc)
      = .ok (setHeaders t headers, holds rest ((headerBytes headers).length + rc)) := by
  induction headers generalizing read t rc with
  | nil =>
    have hdone : ¬ read < need := by
      have hzero : need - read = 0 := h
      omega
    rw [readHeaders, if_neg hdone, headerBytes_nil, List.length_nil, Nat.zero_add]
    rfl
  | cons hd headers ih =>
    obtain ⟨hpos, hmore⟩ := h
    have hread : read + 2 + (hd.key.length + hd.value.bytes.length)
        = read + (encodeHeader hd).length := by
      rw [length_encodeHeader]
      omega
    have hcovers : Covers (need - (read + (encodeHeader hd).length)) headers := by
      rw [← Nat.sub_sub]
      exact hmore
    have hrest := ih hcovers (t.set hd.key (some hd.value)) ((encodeHeader hd).length + rc)
    rw [readHeaders, if_pos (by omega), headerBytes_cons, List.append_assoc,
      bind_of_ok (readHeader_encode hd _ rc)]
    have hcount : (headerBytes headers).length + ((encodeHeader hd).length + rc)
        = (encodeHeader hd).length + (headerBytes headers).length + rc := by
      omega
    dsimp only
    rw [hread, hrest, List.length_append, hcount]
    rfl

/-- What the loop has read are headers up to the one that reaches the length. -/
theorem readHeaders_ok {need read : Nat} {t t' : LuaTable Text HeaderValue} {b : Text} {rc : Nat}
    {s' : Stream} (h : readHeaders need read t (holds b rc) = .ok (t', s')) :
    ∃ headers rest, Covers (need - read) headers ∧ b = headerBytes headers ++ rest
      ∧ t' = setHeaders t headers ∧ s' = holds rest ((headerBytes headers).length + rc) := by
  induction hmeasure : need - read using Nat.strong_induction_on generalizing read t b rc with
  | _ m ih =>
    rw [readHeaders] at h
    split at h
    · rename_i hlt
      obtain ⟨⟨key, value, n⟩, s₁, hheader, hrest⟩ := bind_eq_ok h
      obtain ⟨hd, rest₁, rfl, rfl, rfl, rfl, rfl⟩ := readHeader_ok hheader
      have hlength := length_encodeHeader hd
      obtain ⟨headers, rest, hcovers, rfl, rfl, rfl⟩ := ih _ (by omega) hrest rfl
      refine ⟨hd :: headers, rest, ⟨by omega, ?_⟩, ?_, rfl, ?_⟩
      · have hneed : m - (encodeHeader hd).length
            = need - (read + 2 + (hd.key.length + hd.value.bytes.length)) := by omega
        rwa [hneed]
      · rw [headerBytes_cons, List.append_assoc]
      · rw [headerBytes_cons, List.length_append]
        exact holds_congr (by omega)
    · cases h
      refine ⟨[], b, ?_, rfl, rfl, ?_⟩
      · rw [Covers]
        omega
      · rw [headerBytes_nil, List.length_nil, Nat.zero_add]

end KongGateway.Kong.Tools.AwsStream

import Mathlib.Data.Nat.Digits.Lemmas
import KongGateway.Lib.Bytes

/-!
# Numerals — bytes as numbers

Strings of bytes as numbers with the highest byte first, and how such
numbers are written with hexadecimal and decimal digits.
-/

namespace Numerals

open Bytes

/-! ## Classes of characters -/

/-- `%d` -/
def isDigit (c : Byte) : Bool := 48 ≤ c.val ∧ c.val ≤ 57

/-- `%x` -/
def isHex (c : Byte) : Bool :=
  (48 ≤ c.val ∧ c.val ≤ 57) ∨ (65 ≤ c.val ∧ c.val ≤ 70) ∨ (97 ≤ c.val ∧ c.val ≤ 102)

/-- `[0-9a-f]` -/
def isLowerHex (c : Byte) : Bool := (48 ≤ c.val ∧ c.val ≤ 57) ∨ (97 ≤ c.val ∧ c.val ≤ 102)

/-- `%s` -/
def isSpace (c : Byte) : Bool := c.val = 32 ∨ (9 ≤ c.val ∧ c.val ≤ 13)

/-! ## Hexadecimal digits -/

def hexDigit (n : Nat) : Byte := Fin.ofNat 256 (if n < 10 then 48 + n else 87 + n)

def hexValue (c : Byte) : Nat :=
  if c.val ≤ 57 then c.val - 48 else if c.val ≤ 70 then c.val - 55 else c.val - 87

def toHex (s : List Byte) : List Byte :=
  s.flatMap fun b => [hexDigit (b.val / 16), hexDigit (b.val % 16)]

/-- Pairs of digits are replaced by the byte they stand for. -/
def replacePairs : List Byte → List Byte
  | a :: b :: rest =>
    if isHex a && isHex b then Fin.ofNat 256 (hexValue a * 16 + hexValue b) :: replacePairs rest
    else a :: replacePairs (b :: rest)
  | rest => rest

/-- The number that hexadecimal digits stand for. -/
def hexNumber (s : List Byte) : Nat := s.foldl (fun n c => n * 16 + hexValue c) 0

theorem isHex_of_isLowerHex {c : Byte} (h : isLowerHex c = true) : isHex c = true := by
  simp only [isLowerHex, isHex, decide_eq_true_eq] at h ⊢
  omega

theorem isLowerHex_hexDigit {n : Nat} (h : n < 16) : isLowerHex (hexDigit n) = true := by
  have hall : ∀ i : Fin 16, isLowerHex (hexDigit i) = true := by decide
  exact hall ⟨n, h⟩

theorem isHex_hexDigit {n : Nat} (h : n < 16) : isHex (hexDigit n) = true :=
  isHex_of_isLowerHex (isLowerHex_hexDigit h)

theorem hexValue_hexDigit {n : Nat} (h : n < 16) : hexValue (hexDigit n) = n := by
  have hall : ∀ i : Fin 16, hexValue (hexDigit i) = i.val := by decide
  exact hall ⟨n, h⟩

theorem toHex_cons (b : Byte) (s : List Byte) :
    toHex (b :: s) = hexDigit (b.val / 16) :: hexDigit (b.val % 16) :: toHex s := rfl

@[simp] theorem length_toHex (s : List Byte) : (toHex s).length = 2 * s.length := by
  induction s with
  | nil => rfl
  | cons b s ih =>
    rw [toHex_cons, List.length_cons, List.length_cons, ih, List.length_cons]
    omega

theorem isLowerHex_of_mem_toHex {s : List Byte} {c : Byte} (h : c ∈ toHex s) :
    isLowerHex c = true := by
  obtain ⟨b, -, hc⟩ := List.mem_flatMap.mp h
  have hb := b.isLt
  simp only [List.mem_cons, List.not_mem_nil, or_false] at hc
  rcases hc with rfl | rfl
  · exact isLowerHex_hexDigit (by omega)
  · exact isLowerHex_hexDigit (by omega)

theorem isHex_of_mem_toHex {s : List Byte} {c : Byte} (h : c ∈ toHex s) : isHex c = true :=
  isHex_of_isLowerHex (isLowerHex_of_mem_toHex h)

theorem replacePairs_toHex (s : List Byte) : replacePairs (toHex s) = s := by
  induction s with
  | nil => rfl
  | cons b s ih =>
    have hb := b.isLt
    rw [toHex_cons, replacePairs, isHex_hexDigit (by omega), isHex_hexDigit (by omega),
      hexValue_hexDigit (by omega), hexValue_hexDigit (by omega), ih]
    simp only [Bool.and_self, if_true]
    rw [ofNat_eq (a := b) (by omega)]

theorem foldl_hex_eq_zero_iff {n : Nat} {s : List Byte} :
    s.foldl (fun n c => n * 16 + hexValue c) n = 0 ↔ n = 0 ∧ ∀ c ∈ s, hexValue c = 0 := by
  induction s generalizing n with
  | nil => simp
  | cons c s ih =>
    have hstep : n * 16 + hexValue c = 0 ↔ n = 0 ∧ hexValue c = 0 := by omega
    rw [List.foldl_cons, ih, List.forall_mem_cons, hstep, and_assoc]

theorem hexNumber_toHex_eq_zero_iff (s : List Byte) :
    hexNumber (toHex s) = 0 ↔ s = List.replicate s.length 0 := by
  rw [hexNumber, foldl_hex_eq_zero_iff, List.eq_replicate_iff]
  have hbyte : ∀ b : Byte, (hexValue (hexDigit (b.val / 16)) = 0
      ∧ hexValue (hexDigit (b.val % 16)) = 0) ↔ b = 0 := by
    intro b
    have hb := b.isLt
    rw [hexValue_hexDigit (by omega), hexValue_hexDigit (by omega), Fin.ext_iff, Fin.val_zero]
    omega
  constructor
  · rintro ⟨-, hall⟩
    refine ⟨rfl, fun b hb => (hbyte b).mp ⟨hall _ ?_, hall _ ?_⟩⟩
    · exact List.mem_flatMap.mpr ⟨b, hb, by simp⟩
    · exact List.mem_flatMap.mpr ⟨b, hb, by simp⟩
  · rintro ⟨-, hall⟩
    refine ⟨rfl, fun c hc => ?_⟩
    obtain ⟨b, hb, hc⟩ := List.mem_flatMap.mp hc
    obtain ⟨hhigh, hlow⟩ := (hbyte b).mpr (hall b hb)
    simp only [List.mem_cons, List.not_mem_nil, or_false] at hc
    rcases hc with rfl | rfl
    · exact hhigh
    · exact hlow

/-! ## Numbers -/

/-- The number that bytes stand for. -/
def number (s : List Byte) : Nat := Nat.ofDigits 256 (s.map Fin.val).reverse

/-- The bytes of a number, without zeros in front. -/
def bytes (n : Nat) : List Byte := (Nat.digits 256 n).reverse.map (Fin.ofNat 256)

/-- The decimal digits of a number. -/
def decimal (n : Nat) : List Byte :=
  if n = 0 then [48] else (Nat.digits 10 n).reverse.map fun d => Fin.ofNat 256 (48 + d)

/-- The number that decimal digits stand for. -/
def decimalNumber (s : List Byte) : Nat :=
  Nat.ofDigits 10 (s.map fun c => c.val - 48).reverse

theorem vals_lt (s : List Byte) : ∀ d ∈ (s.map Fin.val).reverse, d < 256 := by
  intro d hd
  rw [List.mem_reverse, List.mem_map] at hd
  obtain ⟨b, -, rfl⟩ := hd
  exact b.isLt

theorem number_lt (s : List Byte) : number s < 256 ^ s.length := by
  have h := Nat.ofDigits_lt_base_pow_length (by decide : 1 < 256) (vals_lt s)
  simpa [number] using h

theorem number_inj {s t : List Byte} (hlen : s.length = t.length) (h : number s = number t) :
    s = t := by
  have hrev := Nat.ofDigits_inj_of_len_eq (by decide : 1 < 256) (by simpa using hlen) (vals_lt s)
    (vals_lt t) h
  have hmap : s.map Fin.val = t.map Fin.val := List.reverse_injective hrev
  exact List.map_injective_iff.mpr Fin.val_injective hmap

theorem number_replicate_zero_append (k : Nat) (s : List Byte) :
    number (List.replicate k 0 ++ s) = number s := by
  simp [number, Nat.ofDigits_append_replicate_zero]

theorem number_bytes (n : Nat) : number (bytes n) = n := by
  have hmap : (bytes n).map Fin.val = (Nat.digits 256 n).reverse := by
    unfold bytes
    rw [List.map_map]
    refine (List.map_congr_left fun d hd => ?_).trans (List.map_id _)
    have hlt := Nat.digits_lt_base (by decide : 1 < 256) (List.mem_reverse.mp hd)
    exact Nat.mod_eq_of_lt hlt
  rw [number, hmap, List.reverse_reverse, Nat.ofDigits_digits]

theorem length_bytes_le {n k : Nat} (h : n < 256 ^ k) : (bytes n).length ≤ k := by
  have hlen := (Nat.digits_length_le_iff (by decide : 1 < 256) n).mpr h
  simpa [bytes] using hlen

/-- The bytes of a number, with zeros in front, are the bytes it came from. -/
theorem replicate_append_bytes_number (s : List Byte) :
    List.replicate (s.length - (bytes (number s)).length) 0 ++ bytes (number s) = s := by
  have hlen := length_bytes_le (number_lt s)
  refine number_inj ?_ ?_
  · simp only [List.length_append, List.length_replicate]
    omega
  · rw [number_replicate_zero_append, number_bytes]

/-- A number in a given count of bytes. -/
def padded (k n : Nat) : List Byte := List.replicate (k - (bytes n).length) 0 ++ bytes n

theorem length_padded {k n : Nat} (h : n < 256 ^ k) : (padded k n).length = k := by
  have hle := length_bytes_le h
  rw [padded, List.length_append, List.length_replicate]
  omega

theorem number_padded (k n : Nat) : number (padded k n) = n := by
  rw [padded, number_replicate_zero_append, number_bytes]

theorem padded_number (s : List Byte) : padded s.length (number s) = s :=
  replicate_append_bytes_number s

theorem number_concat (s : List Byte) (b : Byte) : number (s ++ [b]) = number s * 256 + b.val := by
  unfold number
  rw [List.map_append, List.reverse_append, List.map_singleton, List.reverse_singleton,
    List.singleton_append, Nat.ofDigits_cons]
  omega

theorem toHex_append (s t : List Byte) : toHex (s ++ t) = toHex s ++ toHex t :=
  List.flatMap_append

theorem hexNumber_toHex (s : List Byte) : hexNumber (toHex s) = number s := by
  induction s using List.reverseRecOn with
  | nil => rfl
  | append_singleton s b ih =>
    have hb := b.isLt
    have hdigits : toHex [b] = [hexDigit (b.val / 16), hexDigit (b.val % 16)] := rfl
    rw [number_concat, ← ih, toHex_append, hdigits]
    unfold hexNumber
    rw [List.foldl_append, List.foldl_cons, List.foldl_cons, List.foldl_nil,
      hexValue_hexDigit (by omega), hexValue_hexDigit (by omega)]
    omega

theorem isDigit_of_mem_decimal {n : Nat} {c : Byte} (h : c ∈ decimal n) : isDigit c = true := by
  unfold decimal at h
  split at h
  · rw [List.mem_singleton.mp h]
    decide
  · obtain ⟨d, hd, rfl⟩ := List.mem_map.mp h
    have hlt := Nat.digits_lt_base (by decide : 1 < 10) (List.mem_reverse.mp hd)
    have hall : ∀ i : Fin 10, isDigit (Fin.ofNat 256 (48 + i.val)) = true := by decide
    exact hall ⟨d, hlt⟩

theorem decimal_ne_nil (n : Nat) : decimal n ≠ [] := by
  unfold decimal
  split
  · exact List.cons_ne_nil 48 []
  · rename_i hn
    rw [ne_eq, List.map_eq_nil_iff, List.reverse_eq_nil_iff, Nat.digits_eq_nil_iff_eq_zero]
    exact hn

theorem length_decimal_le {n k : Nat} (hk : 1 ≤ k) (h : n < 10 ^ k) : (decimal n).length ≤ k := by
  unfold decimal
  split
  · exact hk
  · have hlen := (Nat.digits_length_le_iff (by decide : 1 < 10) n).mpr h
    simpa using hlen

theorem decimalNumber_decimal (n : Nat) : decimalNumber (decimal n) = n := by
  unfold decimal
  split
  · rename_i hn
    rw [hn]
    decide
  · have hmap : ((Nat.digits 10 n).reverse.map fun d => (Fin.ofNat 256 (48 + d) : Byte)).map
        (fun c => c.val - 48) = (Nat.digits 10 n).reverse := by
      rw [List.map_map]
      refine (List.map_congr_left fun d hd => ?_).trans (List.map_id _)
      have hlt := Nat.digits_lt_base (by decide : 1 < 10) (List.mem_reverse.mp hd)
      have hval : (Fin.ofNat 256 (48 + d)).val = 48 + d := Nat.mod_eq_of_lt (by omega)
      rw [Function.comp_apply, hval, id_eq]
      omega
    rw [decimalNumber, hmap, List.reverse_reverse, Nat.ofDigits_digits]

theorem decimal_injective : Function.Injective decimal := by
  intro n m h
  rw [← decimalNumber_decimal n, h, decimalNumber_decimal]

end Numerals

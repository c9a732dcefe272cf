import KongGateway.Lib.Numerals

/-!
# Der — distinguished encoding

A value is an identifier, the length of its contents, and the contents.
Lengths below 128 are one octet, others are the octets of the number with
their count before them. Integers are the fewest octets of the two's
complement. Tag numbers below 31 are in the identifier itself.
-/

namespace Der

open Bytes Numerals

/-! ## Headers -/

/-- The identifier octet; the class is in its two highest bits. -/
def identifier (tag cls : Nat) (constructed : Bool) : Byte :=
  Fin.ofNat 256 (cls + (if constructed then 32 else 0) + tag)

/-- The octets of a length. -/
def lengthOctets (n : Nat) : List Byte :=
  if n < 128 then [Fin.ofNat 256 n] else Fin.ofNat 256 (128 + (bytes n).length) :: bytes n

def header (tag cls : Nat) (constructed : Bool) (n : Nat) : List Byte :=
  identifier tag cls constructed :: lengthOctets n

/-- A primitive value of the universal class. -/
def value (tag : Nat) (contents : List Byte) : List Byte :=
  header tag 0 false contents.length ++ contents

/-- What a header says, and the octets it has. -/
structure Header where
  tag : Nat
  cls : Nat
  constructed : Bool
  length : Nat
  octets : Nat
  deriving DecidableEq

/-- The length at the start of a string and the octets it has. -/
def parseLength : List Byte → Option (Nat × Nat)
  | [] => none
  | b :: s =>
    if b.val < 128 then some (b.val, 1)
    else
      let count := b.val - 128
      if s.length < count then none else some (number (s.take count), count + 1)

def parseHeader : List Byte → Option Header
  | [] => none
  | b :: s =>
    (parseLength s).map fun found =>
      ⟨b.val % 32, b.val / 64 * 64, b.val / 32 % 2 = 1, found.1, found.2 + 1⟩

theorem length_bytes_lt {n : Nat} (h : n < 256 ^ 126) : (bytes n).length < 127 := by
  have hle := length_bytes_le h
  omega

theorem parseLength_lengthOctets {n : Nat} (h : n < 256 ^ 126) (rest : List Byte) :
    parseLength (lengthOctets n ++ rest) = some (n, (lengthOctets n).length) := by
  unfold lengthOctets
  split
  · rename_i hshort
    have hval : (Fin.ofNat 256 n).val = n := Nat.mod_eq_of_lt (by omega)
    rw [List.singleton_append, parseLength, hval, if_pos hshort]
    rfl
  · have hcount := length_bytes_lt h
    have hval : (Fin.ofNat 256 (128 + (bytes n).length)).val = 128 + (bytes n).length :=
      Nat.mod_eq_of_lt (by omega)
    have hsub : 128 + (bytes n).length - 128 = (bytes n).length := by omega
    rw [List.cons_append, parseLength, hval, if_neg (by omega)]
    dsimp only
    rw [hsub, if_neg (by rw [List.length_append]; omega), List.take_left, number_bytes,
      List.length_cons]

theorem parseHeader_header {tag cls : Nat} (htag : tag < 32) (hcls : cls % 64 = 0)
    (hcls' : cls < 256) (constructed : Bool) {n : Nat} (h : n < 256 ^ 126) (rest : List Byte) :
    parseHeader (header tag cls constructed n ++ rest)
      = some ⟨tag, cls, constructed, n, (header tag cls constructed n).length⟩ := by
  have hval : (identifier tag cls constructed).val
      = cls + (if constructed then 32 else 0) + tag := by
    refine Nat.mod_eq_of_lt ?_
    split <;> omega
  rw [header, List.cons_append, parseHeader, parseLength_lengthOctets h, hval, Option.map_some]
  cases constructed with
  | false =>
    have htag' : (cls + 0 + tag) % 32 = tag := by omega
    have hclass : (cls + 0 + tag) / 64 * 64 = cls := by omega
    have hbit : (cls + 0 + tag) / 32 % 2 = 0 := by omega
    rw [if_neg Bool.false_ne_true, htag', hclass, hbit]
    rfl
  | true =>
    have htag' : (cls + 32 + tag) % 32 = tag := by omega
    have hclass : (cls + 32 + tag) / 64 * 64 = cls := by omega
    have hbit : (cls + 32 + tag) / 32 % 2 = 1 := by omega
    rw [if_pos rfl, htag', hclass, hbit]
    rfl

/-! ## Integers -/

/-- The octets of an integer. -/
def integerOctets (x : Int) : List Byte :=
  if -128 ≤ x ∧ x < 128 then [Fin.ofNat 256 (x % 256).toNat]
  else integerOctets (x / 256) ++ [Fin.ofNat 256 (x % 256).toNat]
termination_by x.natAbs
decreasing_by omega

/-- An octet with its sign. -/
def signed (b : Byte) : Int := if b.val < 128 then b.val else (b.val : Int) - 256

/-- The integer that octets stand for. -/
def integerValue : List Byte → Int
  | [] => 0
  | b :: s => s.foldl (fun x c => x * 256 + c.val) (signed b)

theorem integerValue_concat {s : List Byte} (hne : s ≠ []) (b : Byte) :
    integerValue (s ++ [b]) = integerValue s * 256 + b.val := by
  obtain ⟨c, s, rfl⟩ := List.exists_cons_of_ne_nil hne
  rw [List.cons_append, integerValue, List.foldl_append]
  rfl

theorem integerOctets_ne_nil (x : Int) : integerOctets x ≠ [] := by
  rw [integerOctets]
  split <;> simp

theorem val_octet (x : Int) : ((Fin.ofNat 256 (x % 256).toNat : Byte).val : Int) = x % 256 := by
  have hval : (Fin.ofNat 256 (x % 256).toNat : Byte).val = (x % 256).toNat :=
    Nat.mod_eq_of_lt (by omega)
  rw [hval]
  omega

theorem integerValue_integerOctets (x : Int) : integerValue (integerOctets x) = x := by
  fun_induction integerOctets x with
  | case1 x h =>
    have hval := val_octet x
    rw [integerValue, List.foldl_nil, signed]
    split <;> omega
  | case2 x h ih =>
    rw [integerValue_concat (integerOctets_ne_nil _), ih, val_octet]
    omega

theorem length_integerOctets_le {k : Nat} {x : Int} (hlo : -(128 * 256 ^ k : Int) ≤ x)
    (hhi : x < 128 * 256 ^ k) : (integerOctets x).length ≤ k + 1 := by
  induction k generalizing x with
  | zero =>
    rw [integerOctets, if_pos (by omega)]
    rfl
  | succ k ih =>
    rw [integerOctets]
    split
    · simp
    · rw [pow_succ] at hlo hhi
      have hmore := @ih (x / 256) (by omega) (by omega)
      rw [List.length_append]
      simpa using hmore

end Der

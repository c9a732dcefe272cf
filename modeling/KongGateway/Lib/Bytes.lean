import Mathlib.Data.List.Lex
import Mathlib.Data.List.TakeWhile
import Mathlib.Order.Fin.Basic

/-!
# Bytes — strings of bytes

Strings are lists of bytes, ordered byte by byte; nothing lies between a
string and the one with a zero byte appended. Fields joined by a
separator that none of them contains can be told apart. Base64 without
padding is written out, with its inverse.
-/

namespace Bytes

abbrev Byte := Fin 256

instance byte_neZero : @NeZero Nat Zero.ofOfNat0 256 := ⟨by decide⟩

instance byte_lawfulBEq : LawfulBEq Byte := inferInstance

instance string_lawfulBEq : LawfulBEq (List Byte) := inferInstance

instance value_lawfulBEq : LawfulBEq (Option (List Byte)) := inferInstance

/-- The bytes of an ASCII text. -/
def ofText (s : String) : List Byte := s.toList.map fun c => Fin.ofNat 256 c.toNat

/-- The text of ASCII bytes. -/
def toText (s : List Byte) : String := String.ofList (s.map fun b => Char.ofNat b.val)

/-! ## Literals -/

theorem ofText_ofList (l : List Char) :
    ofText (String.ofList l) = l.map fun c => Fin.ofNat 256 c.toNat := by
  rw [ofText, String.toList_ofList]

/-- `ofText` from the UTF-8 bytes of the string. The kernel evaluates it on
a literal faster, where no character is decoded. -/
def ofAscii (s : String) : List Byte :=
  let bytes := s.toByteArray.data.toList
  if bytes.all fun b => b.toNat < 128 then bytes.map fun b => Fin.ofNat 256 b.toNat else ofText s

theorem utf8EncodeChar_ascii {c : Char} (h : ∀ b ∈ String.utf8EncodeChar c, b.toNat < 128) :
    String.utf8EncodeChar c = [UInt8.ofNat c.toNat] ∧ c.toNat < 128 := by
  unfold String.utf8EncodeChar at *
  simp only at h ⊢
  split at h
  · rename_i hle
    exact ⟨if_pos hle, Nat.lt_succ_of_le hle⟩
  · -- the first byte of a longer sequence is no ASCII
    split at h
    · have hb := h _ List.mem_cons_self
      simp at hb
      omega
    · split at h
      · have hb := h _ List.mem_cons_self
        simp at hb
        omega
      · have hb := h _ List.mem_cons_self
        simp at hb
        omega

theorem ofText_eq_ofAscii : ofText = ofAscii := by
  funext s
  obtain ⟨l, rfl⟩ : ∃ l, String.ofList l = s := ⟨s.toList, String.ofList_toList⟩
  simp only [ofAscii]
  split
  · rename_i h
    rw [String.toByteArray_ofList, List.utf8Encode, List.data_toByteArray] at h ⊢
    simp only [List.all_eq_true, decide_eq_true_eq, List.mem_flatMap] at h
    rw [ofText_ofList, List.map_flatMap]
    induction l with
    | nil => rfl
    | cons c l ih =>
      obtain ⟨hchar, hlt⟩ := utf8EncodeChar_ascii fun b hb => h b ⟨c, List.mem_cons_self, hb⟩
      have hbyte : (UInt8.ofNat c.toNat).toNat = c.toNat :=
        UInt8.toNat_ofNat_of_lt' (Nat.lt_trans hlt (by decide))
      rw [List.map_cons, List.flatMap_cons, hchar, List.map_singleton, hbyte,
        ih fun b ⟨d, hd, hb⟩ => h b ⟨d, List.mem_cons_of_mem _ hd, hb⟩]
      rfl
  · rfl

/-! ## Order -/

section Order

variable {α : Type*} [LinearOrder α]

theorem append_bot_le_iff [OrderBot α] (l k : List α) : l ++ [⊥] ≤ k ↔ l < k := by
  induction l generalizing k with
  | nil =>
    cases k with
    | nil => simp
    | cons b rest =>
      constructor
      · exact fun _ => List.nil_lt_cons b rest
      · intro _
        rw [List.nil_append, ← not_lt, List.cons_lt_cons_iff]
        rintro (hlt | ⟨-, hnil⟩)
        · exact not_lt_bot hlt
        · exact List.not_lt_nil rest hnil
  | cons a l ih =>
    cases k with
    | nil => simp
    | cons b rest =>
      rw [List.cons_append, ← not_lt, List.cons_lt_cons_iff, List.cons_lt_cons_iff, ← ih rest,
        ← not_lt (a := rest)]
      grind

theorem le_of_isPrefix {l k : List α} (h : l <+: k) : l ≤ k := by
  obtain ⟨rest, rfl⟩ := h
  induction l with
  | nil => exact not_lt.mp (List.not_lt_nil rest)
  | cons a l ih => exact List.cons_le_cons a ih

end Order

/-! ## Fields -/

section Fields

variable {α : Type*} {sep : α}

theorem append_sep_inj {a a' b b' : List α} (ha : sep ∉ a) (ha' : sep ∉ a')
    (h : a ++ sep :: b = a' ++ sep :: b') : a = a' ∧ b = b' := by
  induction a generalizing a' with
  | nil =>
    cases a' with
    | nil => exact ⟨rfl, (List.cons.inj h).2⟩
    | cons c rest =>
      obtain rfl := (List.cons.inj h).1
      exact absurd List.mem_cons_self ha'
  | cons c l ih =>
    cases a' with
    | nil =>
      obtain rfl := (List.cons.inj h).1
      exact absurd List.mem_cons_self ha
    | cons d rest =>
      obtain ⟨rfl, htail⟩ := List.cons.inj h
      obtain ⟨rfl, rfl⟩ := ih (fun hmem => ha (List.mem_cons_of_mem c hmem))
        (fun hmem => ha' (List.mem_cons_of_mem c hmem)) htail
      exact ⟨rfl, rfl⟩

theorem append_sep_inj_right {a a' b b' : List α} (hb : sep ∉ b) (hb' : sep ∉ b')
    (h : a ++ sep :: b = a' ++ sep :: b') : a = a' ∧ b = b' := by
  have hrev := congrArg List.reverse h
  simp only [List.reverse_append, List.reverse_cons, List.append_assoc, List.singleton_append]
    at hrev
  obtain ⟨hleft, hright⟩ := append_sep_inj (by simpa using hb) (by simpa using hb') hrev
  exact ⟨List.reverse_injective hright, List.reverse_injective hleft⟩

end Fields

/-! ## Base64 -/

/-- The digit for six bits. -/
def base64Digit (n : Nat) : Byte :=
  if n < 26 then Fin.ofNat 256 (65 + n)
  else if n < 52 then Fin.ofNat 256 (97 + (n - 26))
  else if n < 62 then Fin.ofNat 256 (48 + (n - 52))
  else if n = 62 then 43 else 47

def base64Value (c : Byte) : Option Nat :=
  if 65 ≤ c.val ∧ c.val ≤ 90 then some (c.val - 65)
  else if 97 ≤ c.val ∧ c.val ≤ 122 then some (c.val - 97 + 26)
  else if 48 ≤ c.val ∧ c.val ≤ 57 then some (c.val - 48 + 52)
  else if c.val = 43 then some 62
  else if c.val = 47 then some 63
  else none

/-- `ngx.encode_base64(s, true)`. -/
def encodeBase64 : List Byte → List Byte
  | [] => []
  | [a] => [base64Digit (a.val / 4), base64Digit (a.val % 4 * 16)]
  | [a, b] =>
    [base64Digit (a.val / 4), base64Digit (a.val % 4 * 16 + b.val / 16),
      base64Digit (b.val % 16 * 4)]
  | a :: b :: c :: rest =>
    base64Digit (a.val / 4) :: base64Digit (a.val % 4 * 16 + b.val / 16)
      :: base64Digit (b.val % 16 * 4 + c.val / 64) :: base64Digit (c.val % 64)
      :: encodeBase64 rest

/-- The decoding of digits without padding; a single digit at the end is
refused. -/
def decodeDigits : List Byte → Option (List Byte)
  | [] => some []
  | [_] => none
  | [w, x] => do
    let w ← base64Value w
    let x ← base64Value x
    some [Fin.ofNat 256 (w * 4 + x / 16)]
  | [w, x, y] => do
    let w ← base64Value w
    let x ← base64Value x
    let y ← base64Value y
    some [Fin.ofNat 256 (w * 4 + x / 16), Fin.ofNat 256 (x % 16 * 16 + y / 4)]
  | w :: x :: y :: z :: rest => do
    let w ← base64Value w
    let x ← base64Value x
    let y ← base64Value y
    let z ← base64Value z
    let rest ← decodeDigits rest
    some (Fin.ofNat 256 (w * 4 + x / 16) :: Fin.ofNat 256 (x % 16 * 16 + y / 4)
      :: Fin.ofNat 256 (y % 4 * 64 + z) :: rest)

/-- `ngx.decode_base64`, which stops at the padding. -/
def decodeBase64 (s : List Byte) : Option (List Byte) := decodeDigits (s.takeWhile (· ≠ 61))

theorem base64Value_digit {n : Nat} (h : n < 64) : base64Value (base64Digit n) = some n := by
  have hall : ∀ i : Fin 64, base64Value (base64Digit i) = some i.val := by decide
  exact hall ⟨n, h⟩

theorem base64Digit_ne_pad (n : Nat) : base64Digit n ≠ 61 := by
  by_cases h : n < 64
  · intro hpad
    have hvalue := base64Value_digit h
    have hnone : base64Value 61 = none := by decide
    rw [hpad, hnone] at hvalue
    cases hvalue
  · unfold base64Digit
    rw [if_neg (by omega), if_neg (by omega), if_neg (by omega)]
    split <;> decide

theorem takeWhile_encodeBase64 (s : List Byte) :
    (encodeBase64 s).takeWhile (· ≠ 61) = encodeBase64 s := by
  rw [List.takeWhile_eq_self_iff]
  intro c hc
  rw [decide_eq_true_eq]
  fun_induction encodeBase64 s with
  | case1 => cases hc
  | case2 a =>
    simp only [List.mem_cons, List.not_mem_nil, or_false] at hc
    rcases hc with rfl | rfl <;> exact base64Digit_ne_pad _
  | case3 a b =>
    simp only [List.mem_cons, List.not_mem_nil, or_false] at hc
    rcases hc with rfl | rfl | rfl <;> exact base64Digit_ne_pad _
  | case4 a b c rest ih =>
    simp only [List.mem_cons] at hc
    rcases hc with rfl | rfl | rfl | rfl | hc
    · exact base64Digit_ne_pad _
    · exact base64Digit_ne_pad _
    · exact base64Digit_ne_pad _
    · exact base64Digit_ne_pad _
    · exact ih hc

theorem ofNat_eq {a : Byte} {n : Nat} (h : n = a.val) : Fin.ofNat 256 n = a := by
  rw [h]
  exact Fin.ext (Nat.mod_eq_of_lt a.isLt)

theorem decodeBase64_encodeBase64 (s : List Byte) : decodeBase64 (encodeBase64 s) = some s := by
  rw [decodeBase64, takeWhile_encodeBase64]
  fun_induction encodeBase64 s with
  | case1 => rfl
  | case2 a =>
    have ha := a.isLt
    rw [decodeDigits, base64Value_digit (by omega), base64Value_digit (by omega)]
    exact congrArg (fun x => some [x]) (ofNat_eq (by omega))
  | case3 a b =>
    have ha := a.isLt
    have hb := b.isLt
    rw [decodeDigits, base64Value_digit (by omega), base64Value_digit (by omega),
      base64Value_digit (by omega)]
    exact congrArg₂ (fun x y => some [x, y]) (ofNat_eq (by omega)) (ofNat_eq (by omega))
  | case4 a b c rest ih =>
    have ha := a.isLt
    have hb := b.isLt
    have hc := c.isLt
    rw [decodeDigits, base64Value_digit (by omega), base64Value_digit (by omega),
      base64Value_digit (by omega), base64Value_digit (by omega), ih]
    have h1 : Fin.ofNat 256 (a.val / 4 * 4 + (a.val % 4 * 16 + b.val / 16) / 16) = a :=
      ofNat_eq (by omega)
    have h2 : Fin.ofNat 256 ((a.val % 4 * 16 + b.val / 16) % 16 * 16
        + (b.val % 16 * 4 + c.val / 64) / 4) = b := ofNat_eq (by omega)
    have h3 : Fin.ofNat 256 ((b.val % 16 * 4 + c.val / 64) % 4 * 64 + c.val % 64) = c :=
      ofNat_eq (by omega)
    change some (_ :: _ :: _ :: rest) = _
    rw [h1, h2, h3]

end Bytes

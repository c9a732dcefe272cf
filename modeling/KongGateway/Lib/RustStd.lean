import Mathlib.Algebra.Ring.Nat
import Mathlib.Data.List.Basic
import Mathlib.Data.Rat.Defs

/-!
# RustStd — the standard-library behaviour the models rely on

Clocks, saturating and wrapping unsigned arithmetic, the tie-breaking
of the iterator minimum and maximum, and the few string operations the
verified code calls, as the Rust documentation describes them.

An `Instant` is a number of nanoseconds on one monotone clock.
`durationSince` saturates at zero, as `Instant::duration_since` does
since Rust 1.60 when the other instant is later.
-/

namespace RustStd

/-! ## Clocks -/

/-- A reading of the monotone clock, in nanoseconds. -/
abbrev Instant := Nat

/-- A span of time, in nanoseconds. -/
abbrev Duration := Nat

def nanosPerSec : Nat := 1000000000

/-- `Duration::from_millis`. -/
def fromMillis (ms : UInt64) : Duration := 1000000 * ms.toNat

/-- `Duration::from_secs`. -/
def fromSecs (secs : UInt64) : Duration := nanosPerSec * secs.toNat

/-- `now.duration_since(earlier)`, saturating at zero. -/
def durationSince (now earlier : Instant) : Duration := now - earlier

/-- `Duration::as_secs_f64`, as an exact rational. -/
def asSecs (d : Duration) : ℚ := (d : ℚ) / nanosPerSec

theorem le_durationSince_iff {now earlier : Instant} {d : Duration} (h : earlier ≤ now) :
    d ≤ durationSince now earlier ↔ earlier + d ≤ now := by
  rw [durationSince, Nat.le_sub_iff_add_le h, Nat.add_comm]

theorem durationSince_lt_iff {now earlier d : Nat} (hpos : 0 < d) :
    durationSince now earlier < d ↔ now < earlier + d := by
  show (now - earlier : Nat) < d ↔ now < earlier + d
  omega

/-! ## Unsigned arithmetic -/

/-- `u32::MAX`. -/
def u32Max : Nat := 2 ^ 32 - 1

/-- `u32::saturating_add` on the values of two `u32`. -/
def saturatingAdd (a b : Nat) : Nat := min (a + b) u32Max

theorem one_le_saturatingAdd_one (a : Nat) : 1 ≤ saturatingAdd a 1 := by
  simp only [saturatingAdd, u32Max]
  omega

/-- Saturation loses nothing that a `u32` threshold can see. -/
theorem le_saturatingAdd_iff {a b n : Nat} (hn : n ≤ u32Max) :
    n ≤ saturatingAdd a b ↔ n ≤ a + b := by
  simp only [saturatingAdd]
  omega

theorem saturatingAdd_of_lt {a b : Nat} (h : a + b ≤ u32Max) :
    saturatingAdd a b = a + b := Nat.min_eq_left h

theorem toNat_le_u32Max (n : UInt32) : n.toNat ≤ u32Max := by
  have := n.toNat_lt
  simp only [u32Max]
  omega

/-- `x as u32` on the value of a wider unsigned integer. -/
def asU32 (n : Nat) : Nat := n % 2 ^ 32

/-- `Iterator::sum` of `u32` values in a build without overflow checks. -/
def wrappingSum (ns : List Nat) : Nat := asU32 ns.sum

theorem wrappingSum_of_lt {ns : List Nat} (h : ns.sum < 2 ^ 32) :
    wrappingSum ns = ns.sum := Nat.mod_eq_of_lt h

/-- `u64::saturating_add` on the values of two `u64`. -/
def saturatingAddU64 (a b : Nat) : Nat := min (a + b) (2 ^ 64 - 1)

/-! ## Checked arithmetic -/

/-- What makes a build with overflow checks panic; a zero modulus does
so in every build. -/
inductive ArithmeticFault where
  | overflow
  | zeroModulus
deriving DecidableEq, Repr

/-- `a + b` on the values of two unsigned integers of `w` bits. -/
def checkedAdd (w a b : Nat) : Except ArithmeticFault Nat :=
  if a + b < 2 ^ w then .ok (a + b) else .error .overflow

/-- `Iterator::sum` of unsigned integers of `w` bits. -/
def checkedSum (w : Nat) (ns : List Nat) : Except ArithmeticFault Nat :=
  ns.foldlM (checkedAdd w) 0

/-- `a % b`. -/
def checkedRem (a b : Nat) : Except ArithmeticFault Nat :=
  if b = 0 then .error .zeroModulus else .ok (a % b)

theorem foldlM_checkedAdd {w acc : Nat} (hacc : acc < 2 ^ w) (ns : List Nat) :
    ns.foldlM (checkedAdd w) acc
      = if acc + ns.sum < 2 ^ w then .ok (acc + ns.sum) else .error .overflow := by
  induction ns generalizing acc with
  | nil =>
    rw [List.sum_nil, Nat.add_zero, if_pos hacc]
    rfl
  | cons n ns ih =>
    rw [List.foldlM_cons, checkedAdd, List.sum_cons, ← Nat.add_assoc]
    by_cases hn : acc + n < 2 ^ w
    · rw [if_pos hn]
      exact ih hn
    · -- a partial sum beyond the bound stays beyond it
      rw [if_neg hn, if_neg (by omega)]
      rfl

theorem checkedSum_eq (w : Nat) (ns : List Nat) :
    checkedSum w ns = if ns.sum < 2 ^ w then .ok ns.sum else .error .overflow := by
  rw [checkedSum, foldlM_checkedAdd (Nat.two_pow_pos w), Nat.zero_add]

/-! ## Iterators -/

variable {α : Type*}

/-- `Iterator::min_by_key`: the first of several equal minima. -/
def minByKey (key : α → Nat) : List α → Option α
  | [] => none
  | a :: rest =>
    match minByKey key rest with
    | none => some a
    | some b => if key b < key a then some b else some a

/-- `Iterator::max_by_key`: the last of several equal maxima. -/
def maxByKey (key : α → Nat) : List α → Option α
  | [] => none
  | a :: rest =>
    match maxByKey key rest with
    | none => some a
    | some b => if key a ≤ key b then some b else some a

theorem minByKey_mem {key : α → Nat} {l : List α} {a : α}
    (h : minByKey key l = some a) : a ∈ l := by
  induction l generalizing a with
  | nil => simp [minByKey] at h
  | cons x rest ih =>
    simp only [minByKey] at h
    cases hr : minByKey key rest with
    | none =>
      simp only [hr, Option.some.injEq] at h
      simp [h]
    | some b =>
      simp only [hr] at h
      split at h
      · cases h
        exact List.mem_cons_of_mem _ (ih hr)
      · cases h
        simp

theorem maxByKey_mem {key : α → Nat} {l : List α} {a : α}
    (h : maxByKey key l = some a) : a ∈ l := by
  induction l generalizing a with
  | nil => simp [maxByKey] at h
  | cons x rest ih =>
    simp only [maxByKey] at h
    cases hr : maxByKey key rest with
    | none =>
      simp only [hr, Option.some.injEq] at h
      simp [h]
    | some b =>
      simp only [hr] at h
      split at h
      · cases h
        exact List.mem_cons_of_mem _ (ih hr)
      · cases h
        simp

@[simp] theorem minByKey_eq_none_iff {key : α → Nat} {l : List α} :
    minByKey key l = none ↔ l = [] := by
  cases l with
  | nil => simp [minByKey]
  | cons a rest =>
    simp only [minByKey]
    split
    · simp
    · split <;> simp

@[simp] theorem maxByKey_eq_none_iff {key : α → Nat} {l : List α} :
    maxByKey key l = none ↔ l = [] := by
  cases l with
  | nil => simp [maxByKey]
  | cons a rest =>
    simp only [maxByKey]
    split
    · simp
    · split <;> simp

theorem minByKey_spec {key : α → Nat} {l : List α} {a : α} (h : minByKey key l = some a) :
    ∃ pre post, l = pre ++ a :: post ∧ (∀ b ∈ pre, key a < key b) ∧ ∀ b ∈ post, key a ≤ key b := by
  induction l generalizing a with
  | nil => cases h
  | cons x rest ih =>
    rw [minByKey] at h
    cases hr : minByKey key rest with
    | none =>
      rw [hr] at h
      cases h
      rw [minByKey_eq_none_iff.mp hr]
      exact ⟨[], [], rfl, by simp, by simp⟩
    | some b =>
      obtain ⟨pre, post, rfl, hpre, hpost⟩ := ih hr
      simp only [hr] at h
      split at h
      · rename_i hlt
        cases h
        refine ⟨x :: pre, post, rfl, ?_, hpost⟩
        intro c hc
        rcases List.mem_cons.mp hc with rfl | hc
        · exact hlt
        · exact hpre c hc
      · rename_i hge
        cases h
        refine ⟨[], pre ++ b :: post, rfl, by simp, ?_⟩
        intro c hc
        have hb : key x ≤ key b := Nat.not_lt.mp hge
        rcases List.mem_append.mp hc with hc | hc
        · exact hb.trans (Nat.le_of_lt (hpre c hc))
        · rcases List.mem_cons.mp hc with rfl | hc
          · exact hb
          · exact hb.trans (hpost c hc)

theorem maxByKey_spec {key : α → Nat} {l : List α} {a : α} (h : maxByKey key l = some a) :
    ∃ pre post, l = pre ++ a :: post ∧ (∀ b ∈ pre, key b ≤ key a) ∧ ∀ b ∈ post, key b < key a := by
  induction l generalizing a with
  | nil => cases h
  | cons x rest ih =>
    rw [maxByKey] at h
    cases hr : maxByKey key rest with
    | none =>
      rw [hr] at h
      cases h
      rw [maxByKey_eq_none_iff.mp hr]
      exact ⟨[], [], rfl, by simp, by simp⟩
    | some b =>
      obtain ⟨pre, post, rfl, hpre, hpost⟩ := ih hr
      simp only [hr] at h
      split at h
      · rename_i hle
        cases h
        refine ⟨x :: pre, post, rfl, ?_, hpost⟩
        intro c hc
        rcases List.mem_cons.mp hc with rfl | hc
        · exact hle
        · exact hpre c hc
      · rename_i hgt
        cases h
        refine ⟨[], pre ++ b :: post, rfl, by simp, ?_⟩
        intro c hc
        have hb : key b < key x := Nat.not_le.mp hgt
        rcases List.mem_append.mp hc with hc | hc
        · exact Nat.lt_of_le_of_lt (hpre c hc) hb
        · rcases List.mem_cons.mp hc with rfl | hc
          · exact hb
          · exact (hpost c hc).trans hb

theorem minByKey_eq_some {key : α → Nat} {pre post : List α} {a : α}
    (hpre : ∀ b ∈ pre, key a < key b) (hpost : ∀ b ∈ post, key a ≤ key b) :
    minByKey key (pre ++ a :: post) = some a := by
  induction pre with
  | nil =>
    rw [List.nil_append, minByKey]
    cases hr : minByKey key post with
    | none => rfl
    | some b => simp [Nat.not_lt.mpr (hpost b (minByKey_mem hr))]
  | cons x pre ih =>
    rw [List.cons_append, minByKey, ih fun b hb => hpre b (List.mem_cons_of_mem x hb)]
    simp [hpre x List.mem_cons_self]

theorem le_of_maxByKey {key : α → Nat} {l : List α} {a b : α} (h : maxByKey key l = some a)
    (hb : b ∈ l) : key b ≤ key a := by
  obtain ⟨pre, post, rfl, hpre, hpost⟩ := maxByKey_spec h
  rcases List.mem_append.mp hb with hb | hb
  · exact hpre b hb
  · rcases List.mem_cons.mp hb with rfl | hb
    · exact Nat.le_refl _
    · exact Nat.le_of_lt (hpost b hb)

/-! ## Text -/

/-- `char::is_whitespace`: the Unicode `White_Space` property. -/
def isWhitespace (c : Char) : Bool :=
  let n := c.toNat
  (0x09 ≤ n && n ≤ 0x0D) || n == 0x20 || n == 0x85 || n == 0xA0 || n == 0x1680
    || (0x2000 ≤ n && n ≤ 0x200A) || n == 0x2028 || n == 0x2029 || n == 0x202F
    || n == 0x205F || n == 0x3000

/-- `str::trim`. -/
def trim (s : String) : String :=
  String.ofList ((s.toList.dropWhile isWhitespace).reverse.dropWhile isWhitespace).reverse

/-- `str::split` at every character that meets `p`. -/
def splitOn (p : Char → Bool) (s : String) : List String :=
  (s.toList.splitOnP p).map String.ofList

/-- `str::split_whitespace`: the non-empty pieces between whitespace. -/
def splitWhitespace (s : String) : List String :=
  (splitOn isWhitespace s).filter (fun piece => !piece.isEmpty)

/-- `str::to_ascii_lowercase`. -/
def toAsciiLowercase (s : String) : String :=
  String.ofList (s.toList.map Char.toLower)

/-- `str::strip_prefix`. -/
def stripPrefix (pre s : String) : Option String :=
  if pre.toList.isPrefixOf s.toList then
    some (String.ofList (s.toList.drop pre.toList.length))
  else none

/-- The characters behind the first `n` bytes, if a character ends
there. -/
def dropBytes : Nat → List Char → Option (List Char)
  | 0, cs => some cs
  | _ + 1, [] => none
  | n + 1, c :: cs => if c.utf8Size ≤ n + 1 then dropBytes (n + 1 - c.utf8Size) cs else none

/-- `&s[n..]`; `none` where it panics, beyond the end or inside a
character. -/
def sliceFrom (s : String) (n : Nat) : Option String :=
  (dropBytes n s.toList).map String.ofList

theorem utf8ByteSize_cons (c : Char) (cs : List Char) :
    (String.ofList (c :: cs)).utf8ByteSize = c.utf8Size + (String.ofList cs).utf8ByteSize := by
  have hsplit : String.ofList (c :: cs) = String.singleton c ++ String.ofList cs := by
    rw [← String.toList_inj]
    simp
  rw [hsplit, String.utf8ByteSize_append, String.utf8ByteSize_singleton]

theorem dropBytes_append (pre rest : List Char) :
    dropBytes (String.ofList pre).utf8ByteSize (pre ++ rest) = some rest := by
  induction pre with
  | nil => cases rest <;> rfl
  | cons c pre ih =>
    have hpos := c.utf8Size_pos
    obtain ⟨n, hn⟩ : ∃ n, c.utf8Size + (String.ofList pre).utf8ByteSize = n + 1 :=
      Nat.exists_eq_add_one.mpr (by omega)
    rw [utf8ByteSize_cons, List.cons_append, hn, dropBytes, if_pos (by omega), ← ih]
    congr 1
    omega

theorem sliceFrom_append (pre rest : String) :
    sliceFrom (pre ++ rest) pre.utf8ByteSize = some rest := by
  have hdrop := dropBytes_append pre.toList rest.toList
  rw [String.ofList_toList] at hdrop
  rw [sliceFrom, String.toList_append, hdrop, Option.map_some, String.ofList_toList]

theorem prefix_unique {pre pre' rest rest' : String} (h : pre ++ rest = pre' ++ rest')
    (hlen : pre.utf8ByteSize = pre'.utf8ByteSize) : pre = pre' := by
  have hslice := sliceFrom_append pre rest
  rw [h, hlen, sliceFrom_append] at hslice
  obtain rfl := Option.some.inj hslice
  rw [← String.toList_inj] at h ⊢
  simpa using h

/-- `[String]::join`. -/
def join (sep : String) : List String → String
  | [] => ""
  | [s] => s
  | s :: rest => s ++ sep ++ join sep rest

end RustStd

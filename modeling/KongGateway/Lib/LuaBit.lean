import Mathlib.Data.Nat.Bitwise

/-!
# LuaBit — the bit operations of LuaJIT

An operand is a plain number or a 64-bit unsigned cdata. On plain
numbers the operations are 32 bits wide, the result is a signed number
and a shift count is taken modulo 32. One cdata among the operands makes
the operation 64 bits wide, and the plain numbers are converted, with
their sign.
-/

namespace LuaBit

inductive Num where
  | number (x : Int)
  | uint64 (x : BitVec 64)
  deriving DecidableEq, Repr

/-- The normalisation of a plain number. -/
def tobit (x : Int) : BitVec 32 := BitVec.ofInt 32 x

/-- The conversion to an unsigned 64-bit integer. -/
def Num.toUint64 : Num → BitVec 64
  | .number x => BitVec.ofInt 64 x
  | .uint64 x => x

def Num.isUint64 : Num → Bool
  | .number _ => false
  | .uint64 _ => true

def Num.toBit : Num → BitVec 32
  | .number x => tobit x
  | .uint64 x => x.setWidth 32

/-- A 32-bit result as a plain number. -/
def ofBit (x : BitVec 32) : Num := .number x.toInt

def lshift : Num → Nat → Num
  | .number x, n => ofBit (tobit x <<< (n % 32))
  | .uint64 x, n => .uint64 (x <<< (n % 64))

def bor (args : List Num) : Num :=
  if args.any Num.isUint64 then .uint64 (args.foldr (fun a acc => a.toUint64 ||| acc) 0)
  else ofBit (args.foldr (fun a acc => a.toBit ||| acc) 0)

def band (x y : Num) : Num :=
  if x.isUint64 || y.isUint64 then .uint64 (x.toUint64 &&& y.toUint64)
  else ofBit (x.toBit &&& y.toBit)

theorem lshift_number (x : Int) (n : Nat) :
    lshift (.number x) n = ofBit (tobit x <<< (n % 32)) := rfl

theorem band_number (x y : Int) : band (.number x) (.number y) = ofBit (tobit x &&& tobit y) := rfl

@[simp] theorem toUint64_ofBit (x : BitVec 32) : (ofBit x).toUint64 = x.signExtend 64 := rfl

theorem signExtend_or (x y : BitVec 32) :
    (x ||| y).signExtend 64 = x.signExtend 64 ||| y.signExtend 64 := by
  apply BitVec.eq_of_getLsbD_eq
  intro i hi
  simp only [BitVec.getLsbD_signExtend, BitVec.getLsbD_or, BitVec.msb_or]
  by_cases h : i < 32 <;> simp [h, hi]

/-- A plain number that is the result of a 32-bit operation, or a
cdata. -/
def Num.Settled : Num → Prop
  | .number x => (tobit x).toInt = x
  | .uint64 _ => True

theorem settled_ofBit (x : BitVec 32) : (ofBit x).Settled := by
  show (tobit x.toInt).toInt = x.toInt
  rw [tobit, BitVec.ofInt_toInt]

theorem toUint64_of_settled {a : Num} (h : a.Settled) (hplain : a.isUint64 = false) :
    a.toUint64 = a.toBit.signExtend 64 := by
  cases a with
  | number x =>
    show BitVec.ofInt 64 x = BitVec.ofInt 64 (tobit x).toInt
    rw [show (tobit x).toInt = x from h]
  | uint64 x => cases hplain

/-- Of settled operands, `bor` is the 64-bit one. -/
theorem toUint64_bor {args : List Num} (h : ∀ a ∈ args, a.Settled) :
    (bor args).toUint64 = args.foldr (fun a acc => a.toUint64 ||| acc) 0 := by
  rw [bor]
  split
  · rfl
  · rename_i hplain
    rw [toUint64_ofBit]
    induction args with
    | nil => rfl
    | cons a rest ih =>
      simp only [List.any_cons, Bool.or_eq_true, not_or, Bool.not_eq_true] at hplain
      rw [List.foldr_cons, List.foldr_cons, signExtend_or,
        ih (fun a' ha' => h a' (List.mem_cons_of_mem a ha')) (by simpa using hplain.2),
        toUint64_of_settled (h a List.mem_cons_self) hplain.1]

/-! ## The value of a word -/

theorem signExtend_or_of_msb {x : BitVec 32} {c : BitVec 64} (hmsb : x.msb = true)
    (hlow : ∀ i < 32, c.getLsbD i = false) : x.signExtend 64 ||| c = x.signExtend 64 := by
  apply BitVec.eq_of_getLsbD_eq
  intro i hi
  rw [BitVec.getLsbD_or, BitVec.getLsbD_signExtend]
  by_cases h : i < 32
  · simp [hlow i h]
  · simp [h, hi, hmsb]

theorem toNat_signExtend_of_msb {x : BitVec 32} (hmsb : x.msb = true) :
    (x.signExtend 64).toNat = 2 ^ 64 - 2 ^ 32 + x.toNat := by
  rw [BitVec.toNat_signExtend, hmsb]
  simp
  omega

theorem toNat_signExtend_of_not_msb {x : BitVec 32} (hmsb : x.msb = false) :
    (x.signExtend 64).toNat = x.toNat := by
  rw [BitVec.toNat_signExtend, hmsb]
  simp
  omega

end LuaBit

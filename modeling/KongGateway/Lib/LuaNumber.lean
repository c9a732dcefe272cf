import Mathlib.Algebra.Order.Field.Rat

/-!
# LuaNumber — numbers and how they compare

Arithmetic on finite numbers is exact. `nan` is not less than any number
and no number is less than it.
-/

inductive LuaNumber where
  | finite (q : ℚ)
  | posInf
  | negInf
  | nan
  deriving DecidableEq

namespace LuaNumber

/-- `a < b`. -/
def lt : LuaNumber → LuaNumber → Bool
  | .finite p, .finite q => p < q
  | .finite _, .posInf => true
  | .negInf, .finite _ => true
  | .negInf, .posInf => true
  | _, _ => false

/-- `math.max(a, 0)`. -/
def maxZero (a : LuaNumber) : LuaNumber := if lt (.finite 0) a then a else .finite 0

end LuaNumber

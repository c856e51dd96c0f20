import Mathlib.Algebra.Order.Field.Rat
import Mathlib.Data.Rat.Floor

/-!
# Rounding

`round` and the fixed-point formats of Python: to the nearest, ties to even.
-/

namespace AefTerminal

/-- The integer nearest to `x`, ties to the even one. -/
def roundHalfEven (x : ℚ) : ℤ :=
  let floor := ⌊x⌋
  let rest := x - floor
  if rest < 1 / 2 then floor
  else if 1 / 2 < rest then floor + 1
  else if floor % 2 = 0 then floor else floor + 1

/-- `round(x, digits)`. -/
def roundDigits (digits : ℕ) (x : ℚ) : ℚ := roundHalfEven (x * 10 ^ digits) / 10 ^ digits

end AefTerminal

import Qiftop.Lib.Significand
import Qiftop.Qt.Prelude

/-!
# Qt — the doubles of the machine

A finite `double` by its value, a number with a significand of 53 bits.  Each operation gives the double
nearest to the exact result.  The bounds of the exponent are not kept, nor the sign of zero: no sum that
is computed here comes near them.
-/

namespace Qiftop.Qt
open Lib

/-- A finite `double`. -/
structure Binary64 where
  value : ℚ
  fits : FitsRat 53 value
  deriving DecidableEq

namespace Binary64

/-- The nearest double. -/
def ofRat (q : ℚ) : Binary64 := ⟨roundRat 53 q, fitsRat_roundRat (by decide) q⟩

instance : Double Binary64 where
  ofInt n := ofRat n
  add a b := ofRat (a.value + b.value)
  sub a b := ofRat (a.value - b.value)
  mul a b := ofRat (a.value * b.value)
  div a b := ofRat (a.value / b.value)
  lt a b := decide (a.value < b.value)
  le a b := decide (a.value ≤ b.value)
  eq a b := decide (a.value = b.value)

example : (ofRat (1 / 10)).value = 3602879701896397 / 2 ^ 55 := by decide +kernel

end Binary64
end Qiftop.Qt

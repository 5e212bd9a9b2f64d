/-
  LispCore — decimal numbers and the doubles nearest to them.

  * `Decimal`: a coefficient times a power of ten;
  * `Decimal.toMagnitude`: the magnitude nearest to it.  Exponents so far out
    that the answer is infinity or zero whatever the coefficient are answered
    without computing the power of ten;
  * `Decimal.trim`: the same number without trailing zeros in the coefficient;
  * `digits`: the decimal digits of a number.
-/
import LispCore.Double.Rounding

namespace LispCore

/-- The number `coefficient` · 10 to the power `exponent`. -/
structure Decimal where
  coefficient : Nat
  exponent : Int
  deriving DecidableEq, Repr

namespace Decimal

/-- The numerator of the decimal in units of 2⁻¹⁰⁷⁴. -/
def num (d : Decimal) : Nat := unitsPerOne * (d.coefficient * Nat.pow 10 d.exponent.toNat)

/-- The denominator that goes with `num`. -/
def den (d : Decimal) : Nat := Nat.pow 10 (-d.exponent).toNat

/-- The magnitude nearest to the decimal.  With an exponent above 310 a positive
    coefficient is beyond every finite double.  A coefficient is less than 10 to
    its binary logarithm plus one, so where that logarithm and the exponent add up
    to less than -331 the decimal is below 10⁻³³⁰, and zero is the nearest. -/
def toMagnitude (d : Decimal) : Magnitude :=
  if d.coefficient = 0 then .zero
  else if 310 < d.exponent then .infinity
  else if d.exponent + (Nat.log2 d.coefficient : Int) < -331 then .zero
  else .ofRatio d.num d.den

/-- The same number with the trailing zeros of the coefficient moved into the
    exponent; zero is left alone. -/
def trim (d : Decimal) : Decimal :=
  if 0 < d.coefficient ∧ d.coefficient % 10 = 0 then
    trim ⟨d.coefficient / 10, d.exponent + 1⟩
  else d
termination_by d.coefficient
decreasing_by omega

end Decimal

/-! ## Digits -/

/-- The character of a digit below ten. -/
def digitChar (d : Nat) : Char := Char.ofNat ('0'.toNat + d)

/-- The decimal digits of a number, the first one first; zero has one digit. -/
def digits (n : Nat) : List Char :=
  if n < 10 then [digitChar n] else digits (n / 10) ++ [digitChar (n % 10)]
termination_by n
decreasing_by omega

/-- How many decimal digits a number has. -/
def digitCount (n : Nat) : Nat :=
  if n < 10 then 1 else digitCount (n / 10) + 1
termination_by n
decreasing_by omega

end LispCore

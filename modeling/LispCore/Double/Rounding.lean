/-
  LispCore — rounding to the nearest double.

  * `halfEven num den`: the integer nearest to `num / den`, the even one of two
    that are equally near;
  * `Magnitude.ofRatio num den`: the magnitude nearest to `num / den` units of
    2⁻¹⁰⁷⁴, the one of even rank of two that are equally near.  Values from the
    middle between the greatest finite double and 2¹⁰²⁴ on become infinity;
  * `Double.ofInt`, `Double.ofInt?`: an integer as a double, and the same where
    the result is finite.
-/
import LispCore.Double.Basic

namespace LispCore

/-- The integer nearest to `num / den`, ties going to the even one. -/
def halfEven (num den : Nat) : Nat :=
  let low := num / den
  let twice := 2 * (num % den)
  if twice < den then low
  else if den < twice then low + 1
  else if low % 2 = 0 then low else low + 1

/-- The magnitude nearest to `num / den` units.  Its step is 2 to the power by
    which the quotient exceeds 53 bits; counted in steps it is an ordinary
    rounding to an integer, and since a binade holds 2⁵² ranks, the rank is that
    integer plus 2⁵² for every doubling of the step. -/
@[irreducible] def Magnitude.ofRatio (num den : Nat) : Magnitude :=
  let doublings := Nat.log2 (num / den) - 52
  ofRank (ranksPerBinade * doublings + halfEven num (den * Nat.pow 2 doublings))

namespace Double

/-- The double nearest to an integer, infinite where the integer is too large. -/
def ofInt (n : Int) : Double :=
  signed (n < 0) (.ofRatio (unitsPerOne * n.natAbs) 1)

/-- Whether the double is finite. -/
def isFinite : Double → Bool
  | nan => false
  | signed _ size => !size.isInfinite

/-- The double nearest to an integer, if it is finite. -/
def ofInt? (n : Int) : Option Double :=
  let x := ofInt n
  if x.isFinite then some x else none

end Double

end LispCore

/-
  LispCore — arithmetic on doubles.

  Sum, difference, product and quotient: each is the exact result rounded once
  to the nearest double.  What has no value (the difference of two infinities
  of one sign, zero times infinity, the quotient of two zeros or of two
  infinities) is `nan`.
-/
import LispCore.Double.Rounding

namespace LispCore.Double

/-- The opposite sign; the negation of `nan` is `nan`. -/
def neg : Double → Double
  | nan => nan
  | signed negative size => signed (!negative) size

/-- The double nearest to `total` units.  An exact zero takes the sign given. -/
def ofUnits (zeroNegative : Bool) (total : Int) : Double :=
  if total = 0 then signed zeroNegative .zero
  else signed (total < 0) (.ofRatio total.natAbs 1)

/-- The sum.  A sum of zero is positive unless both terms are negative zeros. -/
def add : Double → Double → Double
  | signed s a, signed t b =>
    if a.isInfinite then
      if b.isInfinite && s != t then nan else signed s a
    else if b.isInfinite then signed t b
    else
      let value (negative : Bool) (m : Magnitude) : Int :=
        if negative then -(m.units : Int) else m.units
      ofUnits (s && t) (value s a + value t b)
  | _, _ => nan

/-- The difference: the sum with the opposite. -/
def sub (x y : Double) : Double := x.add y.neg

/-- The product; its sign is negative if the signs differ. -/
def mul : Double → Double → Double
  | signed s a, signed t b =>
    if a.isInfinite || b.isInfinite then
      if a.isZero || b.isZero then nan else signed (s != t) .infinity
    else signed (s != t) (.ofRatio (a.units * b.units) unitsPerOne)
  | _, _ => nan

/-- The quotient; its sign is negative if the signs differ. -/
def div : Double → Double → Double
  | signed s a, signed t b =>
    if a.isInfinite then
      if b.isInfinite then nan else signed (s != t) .infinity
    else if b.isInfinite then signed (s != t) .zero
    else if b.isZero then
      if a.isZero then nan else signed (s != t) .infinity
    else signed (s != t) (.ofRatio (unitsPerOne * a.units) b.units)
  | _, _ => nan

end LispCore.Double

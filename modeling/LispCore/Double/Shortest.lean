/-
  LispCore — the shortest decimal that reads back.

  For a finite positive magnitude, `Magnitude.shortest` is the decimal with the
  fewest digits among those to which the magnitude is the nearest one, and among
  those of that length the one nearest to the magnitude's exact value, with the
  even coefficient of two that are equally near.

  For each number of digits the decimals of that length around the value form a
  grid of steps of one power of ten.  If any point of the grid reads back, one of
  the two points next to the value does, so only these are tried
  (`Magnitude.onGrid?`); seventeen digits always suffice.
-/
import LispCore.Double.Decimal

namespace LispCore.Magnitude

/-- The decimal point's place: `10 ^ (leading - 1) ≤ value < 10 ^ leading`.  The
    least positive double is above 10⁻³²⁴, so the count of digits before the
    point, once the value is multiplied by 10³²⁴, tells. -/
def leading (m : Magnitude) : Int :=
  (digitCount (Nat.pow 10 324 * m.units / unitsPerOne) : Int) - 324

/-- Of the two multiples of `10 ^ exponent` next to the value, the nearest one
    that reads back. -/
def onGrid? (m : Magnitude) (exponent : Int) : Option Decimal :=
  let num := m.units * Nat.pow 10 (-exponent).toNat
  let den := unitsPerOne * Nat.pow 10 exponent.toNat
  let low : Decimal := ⟨num / den, exponent⟩
  let high : Decimal := ⟨num / den + 1, exponent⟩
  match low.toMagnitude == m, high.toMagnitude == m with
  | true, true => some (if halfEven num den = low.coefficient then low else high)
  | true, false => some low
  | false, true => some high
  | false, false => none

/-- The shortest decimal that reads back, of a finite positive magnitude. -/
def shortest (m : Magnitude) : Decimal :=
  let leading := m.leading
  let found := (List.range 17).findSome? fun n : Nat => m.onGrid? (leading - (n + 1 : Nat))
  (found.getD ⟨m.units, 0⟩).trim

end LispCore.Magnitude

/-
  LispCore — the text of a number.

  A finite number is written with the digits of its shortest decimal, in
  positional notation while the first digit stands between 10⁻⁴ and 10¹⁵, and
  otherwise with an exponent.  A whole number carries no point.

  * `Decimal.text`: a trimmed decimal as text, by the rules in `NumberFormat`;
  * `Double.text`: the text of any double.
-/
import LispCore.Double.Shortest

namespace LispCore

/-- Where positional notation ends and how wide exponents are. -/
structure NumberFormat where
  /-- The least exponent of the first digit that is written positionally. -/
  least : Int
  /-- The least exponent above it that is no longer written positionally. -/
  bound : Int
  /-- How many digits an exponent has at least. -/
  exponentDigits : Nat

/-- The format of numbers: positional from 10⁻⁴ up to, not including, 10¹⁶;
    exponents have a sign and at least two digits. -/
def numberFormat : NumberFormat := ⟨-4, 16, 2⟩

/-- An exponent as written: its sign and at least `exponentDigits` digits. -/
def NumberFormat.exponentText (format : NumberFormat) (e : Int) : List Char :=
  let ds := digits e.natAbs
  (if e < 0 then '-' else '+') :: List.replicate (format.exponentDigits - ds.length) '0' ++ ds

namespace Decimal

/-- The exponent of the decimal's first digit. -/
def firstExponent (d : Decimal) : Int :=
  d.exponent + (digits d.coefficient).length - 1

/-- The text with an exponent: one digit, the others after a point, and the
    exponent of the first digit. -/
def scientificText (format : NumberFormat) (d : Decimal) : List Char :=
  let ds := digits d.coefficient
  let fraction := if ds.length ≤ 1 then [] else '.' :: ds.drop 1
  ds.take 1 ++ fraction ++ 'e' :: format.exponentText d.firstExponent

/-- The text without an exponent: whole numbers are filled up with zeros, and
    numbers below one begin with a zero and the point. -/
def positionalText (d : Decimal) : List Char :=
  let ds := digits d.coefficient
  if 0 ≤ d.exponent then ds ++ List.replicate d.exponent.toNat '0'
  else if 0 ≤ d.firstExponent then
    let whole := (d.firstExponent + 1).toNat
    ds.take whole ++ '.' :: ds.drop whole
  else '0' :: '.' :: List.replicate (-d.firstExponent - 1).toNat '0' ++ ds

/-- The text of a trimmed decimal in a format. -/
def text (format : NumberFormat) (d : Decimal) : List Char :=
  if format.least ≤ d.firstExponent ∧ d.firstExponent < format.bound then d.positionalText
  else d.scientificText format

end Decimal

/-- The text of a magnitude, without any sign. -/
def Magnitude.text (m : Magnitude) : List Char :=
  if m.isInfinite then "inf".toList
  else if m.isZero then ['0']
  else m.shortest.text numberFormat

/-- The text of a double; a negative one, negative zero included, begins with a
    minus sign. -/
def Double.text : Double → String
  | nan => "nan"
  | signed negative size =>
    String.ofList (if negative then '-' :: size.text else size.text)

end LispCore

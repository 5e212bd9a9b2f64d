/-
  LispCore — integers in messages.

  The limit on the digits of literals, of which 4300 is the machine's default, holds in
  the other direction too: an integer of more digits cannot be put into text.

  * `Writable`: the integers that can be put into text;
  * `digitLimitText`: what the machine says about the others.
-/
import LispCore.Double.Decimal
import LispCore.Text.Numeral

namespace LispCore.Text

/-- An integer can be put into text if it has no more digits than a literal may have. -/
def Writable (n : Int) : Prop := digitCount n.natAbs ≤ maxLiteralDigits

instance (n : Int) : Decidable (Writable n) := inferInstanceAs (Decidable (_ ≤ _))

/-- What the machine says where it is asked for the text of any other integer. -/
def digitLimitText : String :=
  s!"Exceeds the limit ({maxLiteralDigits} digits) for integer string conversion; " ++
    "use sys.set_int_max_str_digits() to increase the limit"

end LispCore.Text

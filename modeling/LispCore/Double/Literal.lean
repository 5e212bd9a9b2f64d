/-
  LispCore — number literals.

  A literal is an optional sign followed by a decimal number, which may have a
  point and an exponent, or by one of the words `inf`, `infinity` and `nan` in
  any case.  Digits may be of any script, and single underscores may stand
  between digits.

  * `asciiDigits?`: a literal with its digits in ASCII;
  * `withoutUnderscores?`: a literal without its underscores;
  * `decimalLiteral?`: the decimal of an unsigned number;
  * `Double.ofLiteral?`: the double of a literal, which is the one nearest to it.
-/
import LispCore.Double.Decimal
import LispCore.Text.Numeral

namespace LispCore

/-- The text with its digits in ASCII; a text with any other character from outside
    ASCII is no literal. -/
def asciiDigits? (s : List Char) : Option (List Char) :=
  s.mapM fun c => if c.toNat < 128 then some c else (Text.digitValue? c).map digitChar

/-- The rest of a literal without its underscores; `afterDigit` tells whether it
    comes after a digit.  An underscore must stand between two digits. -/
def dropUnderscores? (afterDigit : Bool) : List Char → Option (List Char)
  | [] => some []
  | '_' :: c :: rest =>
    if afterDigit && c.isDigit then (dropUnderscores? true rest).map (c :: ·) else none
  | '_' :: [] => none
  | c :: rest => (dropUnderscores? c.isDigit rest).map (c :: ·)

/-- A literal without its underscores, if each of them stands between two digits. -/
def withoutUnderscores? (s : List Char) : Option (List Char) := dropUnderscores? false s

/-- The value of an ASCII digit. -/
def digitNat (c : Char) : Nat := c.toNat - '0'.toNat

/-- The number of a sequence of ASCII digits. -/
def natOfText (ds : List Char) : Nat := Text.natOfDigits (ds.map digitNat)

/-- The exponent after its mark: an optional sign and at least one digit. -/
def exponentLiteral? (s : List Char) : Option Int :=
  let read (ds : List Char) : Option Nat :=
    if ds ≠ [] ∧ ds.all Char.isDigit then some (natOfText ds) else none
  match s with
  | '+' :: ds => (read ds).map fun n => (n : Int)
  | '-' :: ds => (read ds).map fun n => -(n : Int)
  | ds => (read ds).map fun n => (n : Int)

/-- The decimal of an unsigned number: digits with a point before, among or after
    them, and then perhaps a mark and an exponent. -/
def decimalLiteral? (s : List Char) : Option Decimal :=
  let whole := s.takeWhile Char.isDigit
  let rest := s.dropWhile Char.isDigit
  let (fraction, rest) :=
    match rest with
    | '.' :: rest => (rest.takeWhile Char.isDigit, rest.dropWhile Char.isDigit)
    | rest => ([], rest)
  if whole = [] ∧ fraction = [] then none
  else
    let coefficient := natOfText (whole ++ fraction)
    match rest with
    | [] => some ⟨coefficient, -(fraction.length : Int)⟩
    | mark :: rest =>
      if mark = 'e' ∨ mark = 'E' then
        (exponentLiteral? rest).map fun e => ⟨coefficient, e - fraction.length⟩
      else none

/-- What a literal stands for, once its sign is taken off. -/
def unsignedLiteral? (negative : Bool) (s : List Char) : Option Double :=
  let lower := s.map Char.toLower
  if lower = "inf".toList ∨ lower = "infinity".toList then some (.signed negative .infinity)
  else if lower = "nan".toList then some .nan
  else (decimalLiteral? s).map fun d => .signed negative d.toMagnitude

/-- What a literal stands for that has ASCII digits and no underscores. -/
def plainLiteral? : List Char → Option Double
  | '+' :: s => unsignedLiteral? false s
  | '-' :: s => unsignedLiteral? true s
  | s => unsignedLiteral? false s

/-- The double of a literal, if the text is one. -/
def Double.ofLiteral? (s : List Char) : Option Double := do
  let ascii ← asciiDigits? s
  let plain ← withoutUnderscores? ascii
  plainLiteral? plain

end LispCore

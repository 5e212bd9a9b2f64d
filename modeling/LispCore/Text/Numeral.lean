/-
  LispCore — integer literals in settings.

  A literal is an optional sign and decimal digits of any script, with single
  underscores allowed between digits.  Literals of more than 4300 digits, leading
  zeros counted, are refused.

  * `digitRun?`: the values of the digits of a run with underscores;
  * `natOfDigits`: the number that a sequence of digits stands for;
  * `integerLiteral?`: the integer of a literal.
-/
import LispCore.Text.Blank
import LispCore.Text.Digit

namespace LispCore.Text

/-- The values of the digits of a run: at least one digit, and single underscores
    only between digits. -/
def digitRun? : List Char → Option (List Nat)
  | [] => none
  | [c] => (digitValue? c).map ([·])
  | c :: '_' :: rest => do
    let d ← digitValue? c
    let ds ← digitRun? rest
    some (d :: ds)
  | c :: rest => do
    let d ← digitValue? c
    let ds ← digitRun? rest
    some (d :: ds)

/-- The number whose decimal digits, the first one first, are given. -/
def natOfDigits (ds : List Nat) : Nat := ds.foldl (fun n d => 10 * n + d) 0

/-- How many digits a literal may have. -/
def maxLiteralDigits : Nat := 4300

/-- The number of an unsigned literal. -/
def naturalLiteral? (s : List Char) : Option Nat := do
  let ds ← digitRun? s
  if ds.length ≤ maxLiteralDigits then some (natOfDigits ds) else none

/-- The integer of a literal. -/
def integerLiteral? : List Char → Option Int
  | '+' :: rest => (naturalLiteral? rest).map fun n => (n : Int)
  | '-' :: rest => (naturalLiteral? rest).map fun n => -(n : Int)
  | s => (naturalLiteral? s).map fun n => (n : Int)

end LispCore.Text

/-
  LispCore — arguments of a given variant.

  * `expectNumber`, `expectString`, `expectList`: what an argument holds, if it
    is of the variant wanted.  An integer passes for a number, rounded to the
    nearest double; a boolean does not.
-/
import LispCore.Error

namespace LispCore

/-- The error that an argument is not of the variant wanted. -/
def mismatch (operator : String) (position : Int) (wanted : Variant) (v : Value) : Error :=
  .wrongArgument operator position wanted v.describe

/-- The number that an argument is, or the error that it is none. -/
def expectNumber (operator : String) (position : Int) (v : Value) : Except Error Double :=
  match v with
  | .number x => .ok x
  | .integer n => (widen n).mapError .noVariant
  | v => .error (mismatch operator position .number v)

/-- The string that an argument is, or the error that it is none. -/
def expectString (operator : String) (position : Int) (v : Value) : Except Error String :=
  match v with
  | .string s => .ok s
  | v => .error (mismatch operator position .string v)

/-- The elements of the list that an argument is, or the error that it is none. -/
def expectList (operator : String) (position : Int) (v : Value) : Except Error (List Value) :=
  match v with
  | .list elements => .ok elements
  | v => .error (mismatch operator position .list v)

end LispCore

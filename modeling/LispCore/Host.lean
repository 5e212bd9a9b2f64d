/-
  LispCore — values in the hands of the host.

  The program that uses the library holds values too, and treats some of them on
  terms of its own.

  * `Value.sameAs`: whether two symbols, nils, strings, booleans or functions are
    the same.  Here a function is the same as itself: an entry is one object under
    its name, and every custom function is an object of its own;
  * `nilTruth`, `nilDescription`, `symbolDescription`: how nil counts as a
    condition, and how nil and symbols are shown in diagnostics;
  * `symbolOf`, `formatScalar?`: the symbol that a value makes and the text of a
    number, a boolean being one or zero; both can fail, and not with an `Error`.
-/
import LispCore.Value.Printer

namespace LispCore

namespace Value

/-- Whether the host takes two values for the same. -/
def sameAs : Value → Value → Bool
  | symbol s, symbol t => s == t
  | string s, string t => s == t
  | boolean s, boolean t => s == t
  | nil, nil => true
  | function (.entry p _), function (.entry q _) => p == q
  | _, _ => false

/-- Whether a value is the nil variant. -/
def isNil : Value → Bool
  | nil => true
  | _ => false

end Value

/-- Nil counts as false where the host asks for a condition. -/
def nilTruth : Bool := false

/-- How nil is shown in diagnostics. -/
def nilDescription : String := "nil"

/-- Why a value cannot be made into something else. -/
inductive ConversionFault where
  /-- A symbol's name is a string, and this is none. -/
  | notAName (type : String)
  /-- An integer is too large for a number. -/
  | overflow
  deriving DecidableEq, Repr

/-- The text of the fault. -/
def ConversionFault.message : ConversionFault → String
  | notAName type => "Symbol name must be a str, got " ++ type
  | overflow => "int too large to convert to float"

/-- The name of the symbol that is made from a value. -/
def symbolOf : Value → Except ConversionFault String
  | .string s => .ok s
  | v => .error (.notAName v.typeName)

/-- How the symbol of a name is shown in diagnostics. -/
def symbolDescription (name : String) : String :=
  "Symbol(" ++ String.ofList (Text.quoted name.toList) ++ ")"

/-- The text of a number, an integer, or a boolean counted as one or zero; `none`
    for other values. -/
def formatScalar? : Value → Option (Except ConversionFault String)
  | .number x => some (.ok (formatNumber x))
  | .integer n =>
    match Double.ofInt? n with
    | some x => some (.ok (formatNumber x))
    | none => some (.error .overflow)
  | .boolean b => some (.ok (formatNumber (.ofInt (if b then 1 else 0))))
  | _ => none

end LispCore

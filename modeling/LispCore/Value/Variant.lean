/-
  LispCore — the variants of values.

  Every value belongs to exactly one variant.  A foreign object belongs to none,
  and neither does an integer that is too large for a number.

  * `Variant`: the seven variants and their names;
  * `Value.variant`: the variant of a value, or why it has none;
  * `bitLength`: the size of an integer, which the second reason states;
  * `Value.describe`: the variant in words, or the name of the representation
    where there is none.
-/
import LispCore.Double.Rounding
import LispCore.Value.Basic

namespace LispCore

/-- The variants of values. -/
inductive Variant where
  | number
  | string
  | symbol
  | boolean
  | nil
  | list
  | function
  deriving DecidableEq, Repr

/-- The name of a variant. -/
def Variant.name : Variant → String
  | number => "number"
  | string => "string"
  | symbol => "symbol"
  | boolean => "boolean"
  | nil => "nil"
  | list => "list"
  | function => "function"

/-- Why something is no value. -/
inductive NoVariant where
  /-- It is a foreign object. -/
  | foreign (type : String)
  /-- It is an integer of so many bits, too large for a number. -/
  | oversized (bits : Nat)
  deriving DecidableEq, Repr

/-- How many binary digits the absolute value of an integer has; zero has none. -/
def bitLength (n : Int) : Nat := if n = 0 then 0 else Nat.log2 n.natAbs + 1

/-- The number that an integer stands for. -/
def widen (n : Int) : Except NoVariant Double :=
  match Double.ofInt? n with
  | some x => .ok x
  | none => .error (.oversized (bitLength n))

namespace Value

/-- The variant of a value, or why it has none. -/
def variant : Value → Except NoVariant Variant
  | number _ => .ok .number
  | integer n => (widen n).map fun _ => .number
  | string _ => .ok .string
  | symbol _ => .ok .symbol
  | boolean _ => .ok .boolean
  | nil => .ok .nil
  | list _ => .ok .list
  | function _ => .ok .function
  | foreign type => .error (.foreign type)

/-- The variant in words, or the name of the representation where there is none. -/
def describe (v : Value) : String :=
  match v.variant with
  | .ok variant => variant.name
  | .error _ => v.typeName

end Value

end LispCore

/-
  LispCore — values.

  * `Value`: numbers, integers that stand for numbers, strings, symbols,
    booleans, nil, lists and functions, and foreign objects, which are no values
    but may turn up wherever one is expected;
  * `Value.wrap`: a value inside a number of one-element lists;
  * `Value.unroll`: a finite stage of a list that contains itself;
  * `Value.typeName`: the name of the representation, as messages give it.
-/
import LispCore.Function.Basic

namespace LispCore

/-- A value, or a foreign object in the place of one. -/
inductive Value where
  /-- A number. -/
  | number (x : Double)
  /-- An integer, which stands for the number nearest to it. -/
  | integer (n : Int)
  /-- A string. -/
  | string (s : String)
  /-- A symbol, which is its name. -/
  | symbol (name : String)
  /-- A boolean. -/
  | boolean (b : Bool)
  /-- The one value of its variant. -/
  | nil
  /-- A list. -/
  | list (elements : List Value)
  /-- A function. -/
  | function (f : Function)
  /-- A foreign object, of which only the name of its type is known. -/
  | foreign (type : String)

namespace Value

instance : Inhabited Value := ⟨nil⟩

/-- A value inside `n` one-element lists. -/
def wrap : (n : Nat) → Value → Value
  | 0, v => v
  | n + 1, v => wrap n (list [v])

/-- The `n`-th stage of the list that has `before`, then itself, then `after` as
    its elements.  Where nothing looks deeper than `n` lists, it is as good as
    that list. -/
def unroll (before after : List Value) : (n : Nat) → Value
  | 0 => list []
  | n + 1 => list (before ++ unroll before after n :: after)

/-- The name of a value's representation. -/
def typeName : Value → String
  | number _ => "float"
  | integer _ => "int"
  | string _ => "str"
  | symbol _ => "Symbol"
  | boolean _ => "bool"
  | nil => "NilType"
  | list _ => "list"
  | function _ => "Function"
  | foreign type => type

end Value

end LispCore

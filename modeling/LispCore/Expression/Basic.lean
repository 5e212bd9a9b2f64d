/-
  LispCore — expressions.

  An expression is how a value is written down before it is known what its
  variables are and which reader is installed.

  * `Expression`: expressions.
-/
import LispCore.Double.Basic
import LispCore.Function.Custom
import LispCore.Primitive.Basic

namespace LispCore

/-- How a value is written down. -/
inductive Expression where
  /-- A number. -/
  | number (x : Double)
  /-- An integer. -/
  | integer (n : Int)
  /-- A string. -/
  | string (s : String)
  /-- A symbol. -/
  | symbol (name : String)
  /-- A boolean. -/
  | boolean (b : Bool)
  /-- Nil. -/
  | nil
  /-- A foreign object. -/
  | foreign (type : String)
  /-- A custom function. -/
  | custom (f : CustomFunction)
  /-- An entry of the namespace. -/
  | entry (primitive : Primitive)
  /-- The value of a variable. -/
  | variable (name : String)
  /-- A list. -/
  | list (elements : List Expression)
  /-- A value inside `n` one-element lists. -/
  | wrapped (n : Nat) (e : Expression)
  /-- A list of `n` copies. -/
  | copies (n : Nat) (e : Expression)
  /-- A list of some elements, itself, and some more elements. -/
  | cycle (before after : List Expression)

end LispCore

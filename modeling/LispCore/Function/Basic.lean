/-
  LispCore — functions.

  A function is an entry of the namespace or a custom one.  An entry carries the
  reader that was installed when its namespace was built, because `read-string`
  delegates to it.

  * `Function`: an entry or a custom function, with `name` and `arity`.
-/
import LispCore.Reader.Basic

namespace LispCore

/-- A function. -/
inductive Function where
  /-- The entry of a namespace in which `reader` is installed. -/
  | entry (primitive : Primitive) (reader : Reader)
  /-- A custom function. -/
  | custom (f : CustomFunction)

namespace Function

/-- The name of a function. -/
def name : Function → String
  | entry primitive _ => primitive.name
  | custom f => f.name

/-- How many arguments a function accepts. -/
def arity : Function → Arity
  | entry primitive _ => primitive.arity
  | custom f => f.arity

/-- How a function is shown in diagnostics. -/
def description (f : Function) : String := "<Function " ++ f.name ++ ">"

end Function

end LispCore

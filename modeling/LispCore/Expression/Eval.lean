/-
  LispCore — what expressions stand for.

  * `Expression.eval`, `evalAll`: the value of an expression and the values of
    several, given the values of the variables and the reader of the namespace.
-/
import LispCore.Nesting

namespace LispCore

mutual

/-- The value of an expression.  A list that contains itself is unrolled past the
    deepest level that anything looks at. -/
def Expression.eval (bindings : String → Value) (reader : Reader) : Expression → Value
  | .number x => .number x
  | .integer n => .integer n
  | .string s => .string s
  | .symbol name => .symbol name
  | .boolean b => .boolean b
  | .nil => .nil
  | .foreign type => .foreign type
  | .custom f => .function (.custom f)
  | .entry primitive => .function (.entry primitive reader)
  | .variable name => bindings name
  | .list elements => .list (evalAll bindings reader elements)
  | .wrapped n e => (e.eval bindings reader).wrap n
  | .copies n e => .list (List.replicate n (e.eval bindings reader))
  | .cycle before after =>
    .unroll (evalAll bindings reader before) (evalAll bindings reader after)
      (stackLevels + 2)

/-- The values of several expressions. -/
def evalAll (bindings : String → Value) (reader : Reader) : List Expression → List Value
  | [] => []
  | e :: rest => e.eval bindings reader :: evalAll bindings reader rest

end

end LispCore

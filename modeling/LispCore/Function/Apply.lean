/-
  LispCore — applying functions.

  * `Body.run`: what the body of a custom function does with its arguments;
  * `Function.run`: what a function does with arguments it accepts;
  * `Function.apply`: the arity gate, then the function itself.  Arguments whose
    number is refused are not looked at.
-/
import LispCore.Primitive.Run

namespace LispCore

/-- What the body of a custom function does with its arguments. -/
def Body.run (body : Body) (arguments : List Value) : Except Error Value :=
  match body with
  | .collect | .lambda | .nameless => .ok (.list arguments)
  | .partialNil => .ok (.list (.nil :: arguments))
  | .count => .ok (countNumber arguments.length)
  | .fail => .error (.raised .type "fail was called")

namespace Function

/-- What a function does with arguments, whatever their number. -/
def run (world : World) (f : Function) (arguments : List Value) : Observed :=
  match f with
  | entry primitive reader => primitive.run world reader arguments
  | custom c => .quiet (c.body.run arguments)

/-- What a call does: the number of arguments is checked, and only then is there anything
    else. -/
def apply (world : World) (f : Function) (arguments : List Value) : Observed :=
  match f.arity.fault? arguments.length with
  | some fault => .failed (fault.error f.name)
  | none => f.run world arguments

end Function

end LispCore

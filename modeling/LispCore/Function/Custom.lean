/-
  LispCore — custom functions.

  * `Body`: what a custom function does, and the name that it has of its own;
  * `CustomFunction`: a name, an arity and a body.
-/
import LispCore.Function.Arity

namespace LispCore

/-- What a custom function does. -/
inductive Body where
  /-- Answers the list of its arguments. -/
  | collect
  /-- Does the same, but is an anonymous function. -/
  | lambda
  /-- Does the same, but has no name of its own. -/
  | nameless
  /-- Has been given nil as its first argument in advance, and answers the list of
      all arguments. -/
  | partialNil
  /-- Answers how many arguments there are. -/
  | count
  /-- Fails. -/
  | fail
  deriving DecidableEq, Repr

/-- The name a body has of its own. -/
def Body.ownName : Body → String
  | collect => "collect"
  | lambda | count => "<lambda>"
  | nameless | partialNil => "anonymous"
  | fail => "fail"

/-- A function made from a body. -/
structure CustomFunction where
  name : String
  arity : Arity
  body : Body
  deriving DecidableEq, Repr

/-- The function made from a body, which is named after the body unless a name is
    given; an empty name is a name. -/
def CustomFunction.ofBody (body : Body) (name? : Option String) (arity : Arity) :
    CustomFunction :=
  ⟨name?.getD body.ownName, arity, body⟩

end LispCore

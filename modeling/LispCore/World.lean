/-
  LispCore — what surrounds a call.

  * `World`: what a call can see besides its arguments: the settings, the files,
    the namespace in force and the variables;
  * `World.initial`: the world before anything was done in it;
  * `World.depthLimit`: the nesting limit in force;
  * `World.eval`, `World.evalList`: the values of expressions;
  * `World.fileText`: the text of a file in the encoding in force.  Whether the
    file can be read is found out first, then whether there is such an encoding,
    then whether the contents are in it.  Line endings stay as they are.
-/
import LispCore.Encoding
import LispCore.Encoding.Name
import LispCore.Environment
import LispCore.Expression.Eval
import LispCore.File.Store
import LispCore.Namespace

namespace LispCore

/-- What a call can see besides its arguments. -/
structure World where
  environment : Environment
  files : FileStore
  scope : Namespace
  /-- The value of every variable; nil where none was set. -/
  bindings : String → Value

namespace World

/-- The world before anything was done in it: no variable is set. -/
def initial (environment : Environment) (files : FileStore) (reader : Reader) : World :=
  ⟨environment, files, ⟨reader⟩, fun _ => .nil⟩

/-- The nesting limit in force. -/
def depthLimit (world : World) : Nat := world.environment.depthLimit

/-- The value of an expression. -/
def eval (world : World) (e : Expression) : Value := e.eval world.bindings world.scope.reader

/-- The values of several expressions. -/
def evalList (world : World) (es : List Expression) : List Value :=
  evalAll world.bindings world.scope.reader es

/-- The text of a file in the encoding in force. -/
def fileText (world : World) (path : String) : Except FileFault String := do
  let bytes ← world.files.read path
  let encoding ← Encoding.ofName world.environment.encodingName
  let text ← encoding.decode bytes
  .ok (String.ofList text)

end World

end LispCore

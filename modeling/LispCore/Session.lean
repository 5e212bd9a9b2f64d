/-
  LispCore — sessions.

  A session is a sequence of steps, each of which acts in the world that the steps
  before it have left.

  * `Action`, `Step`: what a step does, and the variable it sets, if any;
  * `Answer`: what a step answers;
  * `World.perform`: one action, with the world after it;
  * `World.step`: one step.  The variable is set to the value of the answer, or to
    nil if there is none;
  * `World.run`: the answers of a sequence of steps.
-/
import LispCore.Function.Apply

namespace LispCore

/-- What a step of a session does. -/
inductive Action where
  /-- Sets the settings that are given, or unsets them. -/
  | configure (maxDepth slurpEncoding : Option (Option String))
  /-- Builds a new namespace with a reader. -/
  | install (reader : Reader)
  /-- Writes a file. -/
  | write (path : String) (bytes : List UInt8)
  /-- Evaluates an expression. -/
  | evaluate (e : Expression)
  /-- Looks up a name. -/
  | lookup (name : Expression)
  /-- Calls an entry by name. -/
  | call (name : String) (arguments : List Expression)
  /-- Applies a function. -/
  | apply (function : Expression) (arguments : List Expression)
  /-- Renders a value in both modes. -/
  | render (e : Expression)

/-- A step: what it does, and the variable that it sets, if any. -/
structure Step where
  action : Action
  target : Option String

/-- What a step answers. -/
inductive Answer where
  /-- The settings in force. -/
  | settings (depthLimit : Nat) (encodingName : String)
  /-- What a call did. -/
  | observed (o : Observed)
  /-- A file was written. -/
  | written
  /-- The variant of a value. -/
  | variant (v : Value) (variant : Except Error Variant)
  /-- The two texts of a value. -/
  | texts (readable display : Except Error String)
  /-- The step makes no sense: it looks up what is no name, or applies what is no
      function. -/
  | senseless

/-- The value that an answer leaves for a variable. -/
def Answer.value : Answer → Value
  | observed o => o.result.toOption.getD .nil
  | variant v (.ok _) => v
  | _ => .nil

namespace World

/-- Sets a variable. -/
def set (world : World) (name : String) (v : Value) : World :=
  { world with bindings := fun x => if x = name then v else world.bindings x }

/-- Applies the function of a name to arguments. -/
def callByName (world : World) (name : String) (arguments : List Value) : Observed :=
  match world.scope.lookup name with
  | .ok f => f.apply world arguments
  | .error e => .failed e

/-- One action: its answer and the world after it. -/
def perform (world : World) : Action → Answer × World
  | .configure maxDepth slurpEncoding =>
    let environment : Environment :=
      ⟨maxDepth.getD world.environment.maxDepth,
        slurpEncoding.getD world.environment.slurpEncoding⟩
    (.settings environment.depthLimit environment.encodingName, { world with environment })
  | .install reader =>
    let scope : Namespace := ⟨reader⟩
    (.observed ⟨.ok (countNumber scope.size), "", scope.builtLog⟩, { world with scope })
  | .write path bytes => (.written, { world with files := world.files.write path bytes })
  | .evaluate e =>
    (.variant (world.eval e) ((world.eval e).variant.mapError .noVariant), world)
  | .lookup name =>
    match (world.eval name).key? with
    | some key => (.observed (.quiet ((world.scope.lookup key).map .function)), world)
    | none => (.senseless, world)
  | .call name arguments =>
    (.observed (world.callByName name (world.evalList arguments)), world)
  | .apply function arguments =>
    match world.eval function with
    | .function f => (.observed (f.apply world (world.evalList arguments)), world)
    | _ => (.senseless, world)
  | .render e =>
    let v := world.eval e
    let limit := world.depthLimit
    (.texts (v.text .readable limit) (v.text .display limit), world)

/-- One step.  The variable is set to the value of the answer, or to nil if there is none. -/
def step (world : World) (t : Step) : Answer × World :=
  let (answer, after) := world.perform t.action
  match t.target with
  | some name => (answer, after.set name answer.value)
  | none => (answer, after)

/-- The answers of a sequence of steps and the world after them. -/
def run (world : World) : List Step → List Answer × World
  | [] => ([], world)
  | t :: rest =>
    let (answer, after) := world.step t
    let (answers, last) := after.run rest
    (answer :: answers, last)

end World

end LispCore

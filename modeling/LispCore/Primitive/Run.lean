/-
  LispCore — what the entries of the namespace do.

  * `arithmetic`, `comparison`: operations on two numbers.  Both operands are
    taken as numbers, the left one first, before anything is computed;
  * `printLine`: one line with the texts of the arguments, written only when all
    of them have been rendered;
  * `delegate`, `readFile`: reading a source text and reading a file;
  * `Primitive.run`: what an entry does with its arguments.  The number of arguments has
    been checked before; given any other number, it fails, and not with an error of the
    library.
-/
import LispCore.Double.Arithmetic
import LispCore.Function.Observed
import LispCore.Reader.Delegate
import LispCore.Value.Equality
import LispCore.Value.Expect
import LispCore.Value.Printer

namespace LispCore

/-- The result of an operation on two numbers. -/
def arithmetic (operator : String) (operation : Double → Double → Except Error Double)
    (a b : Value) : Except Error Value := do
  let x ← expectNumber operator 1 a
  let y ← expectNumber operator 2 b
  let z ← operation x y
  .ok (.number z)

/-- The quotient of two numbers; a divisor of zero is an error. -/
def quotient (x y : Double) : Except Error Double :=
  if y.isZero then .error .divisionByZero else .ok (x.div y)

/-- Whether two numbers are in a relation. -/
def comparison (operator : String) (relation : Double → Double → Bool) (a b : Value) :
    Except Error Value := do
  let x ← expectNumber operator 1 a
  let y ← expectNumber operator 2 b
  .ok (.boolean (relation x y))

/-- Whether a value is a list. -/
def Value.isList : Value → Bool
  | .list _ => true
  | _ => false

/-- Whether a value is a list without elements. -/
def Value.isEmptyList : Value → Bool
  | .list [] => true
  | _ => false

/-- The number of a list's elements; anything else has none. -/
def Value.countElements : Value → Nat
  | .list elements => elements.length
  | _ => 0

/-- A count as a number. -/
def countNumber (n : Nat) : Value := .number (.ofInt n)

/-- Writes one line with the texts of the arguments, and answers nil.  The standard output
    takes any text. -/
def printLine (mode : Mode) (limit : Nat) (arguments : List Value) : Observed :=
  match renderSeq mode limit " " arguments with
  | .ok text => ⟨.ok .nil, text ++ "\n", []⟩
  | .error e => .failed e

/-- Passes a source text on to the reader and answers what it answers. -/
def delegate (world : World) (reader : Reader) (source : Value) : Observed :=
  match expectString "read-string" 1 source, reader with
  | .error e, _ => .failed e
  | .ok _, .absent => .failed .noReader
  | .ok text, reader => ⟨reader.read world text, "", [.delegating text.length]⟩

/-- Answers the contents of the file at a path. -/
def readFile (world : World) (path : Value) : Observed :=
  match expectString "slurp" 1 path with
  | .error e => .failed e
  | .ok path =>
    match world.fileText path with
    | .error fault => .failed (.unreadableFile path fault)
    | .ok text => ⟨.ok (.string text), "", [.fileRead text.length path]⟩

/-- What an entry does with its arguments. -/
def Primitive.run (world : World) (reader : Reader) (p : Primitive)
    (arguments : List Value) : Observed :=
  match p, arguments with
  | .add, [a, b] => .quiet (arithmetic p.name (fun x y => .ok (x.add y)) a b)
  | .sub, [a, b] => .quiet (arithmetic p.name (fun x y => .ok (x.sub y)) a b)
  | .mul, [a, b] => .quiet (arithmetic p.name (fun x y => .ok (x.mul y)) a b)
  | .div, [a, b] => .quiet (arithmetic p.name quotient a b)
  | .less, [a, b] => .quiet (comparison p.name Double.less a b)
  | .greater, [a, b] => .quiet (comparison p.name (fun x y => y.less x) a b)
  | .atMost, [a, b] => .quiet (comparison p.name Double.atMost a b)
  | .atLeast, [a, b] => .quiet (comparison p.name (fun x y => y.atMost x) a b)
  | .equals, [a, b] => .quiet ((a.equal world.depthLimit b).map .boolean)
  | .isList, [a] => .quiet (.ok (.boolean a.isList))
  | .isEmpty, [a] => .quiet (.ok (.boolean a.isEmptyList))
  | .count, [a] => .quiet (.ok (countNumber a.countElements))
  | .readString, [a] => delegate world reader a
  | .slurp, [a] => readFile world a
  | .list, _ => .quiet (.ok (.list arguments))
  | .prStr, _ => .quiet ((renderSeq .readable world.depthLimit " " arguments).map .string)
  | .str, _ => .quiet ((renderSeq .display world.depthLimit "" arguments).map .string)
  | .prn, _ => printLine .readable world.depthLimit arguments
  | .println, _ => printLine .display world.depthLimit arguments
  | _, _ => .failed (.miscalled arguments.length)

end LispCore

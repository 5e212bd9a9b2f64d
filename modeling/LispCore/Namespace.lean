/-
  LispCore — the namespace.

  A namespace has the same entries always; two of them differ in the reader that
  is installed.

  * `Namespace`: a namespace, given by its reader;
  * `Namespace.lookup`: the function of a name;
  * `Namespace.entries`: all entries in the order of the code points of their names;
  * `Value.key?`: the name that a string or a symbol gives to look up.
-/
import LispCore.Function.Observed

namespace LispCore

/-- A namespace, which is known by the reader installed in it. -/
structure Namespace where
  reader : Reader

namespace Namespace

/-- The function of a name. -/
def lookup (ns : Namespace) (name : String) : Except Error Function :=
  match Primitive.ofName? name with
  | some p => .ok (.entry p ns.reader)
  | none => .error (.unknownFunction name)

/-- How many entries there are. -/
def size (_ : Namespace) : Nat := Primitive.all.length

/-- All entries, in the order of the code points of their names. -/
def entries (ns : Namespace) : List Function :=
  (Primitive.all.mergeSort fun p q => p.name ≤ q.name).map (.entry · ns.reader)

/-- What building a namespace logs. -/
def builtLog (ns : Namespace) : List LogRecord := [.builtNamespace ns.size]

end Namespace

/-- The name to look up that a value gives: a string is one, a symbol has one. -/
def Value.key? : Value → Option String
  | string s => some s
  | symbol name => some name
  | _ => none

end LispCore

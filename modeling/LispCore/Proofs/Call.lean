/-
  LispCore — calling an entry by its name.

  * `Primitive.ofName?_name`: every entry is found under its own name;
  * `Primitive.fault?_eq_none_iff`: the numbers of arguments that it takes pass the gate,
    and `Primitive.Takes.one`, `Primitive.Takes.two` say what the arguments are then;
  * `Primitive.error_of_fault?`: no other number does, and that is an error of the library;
  * `World.callByName_name`: with as many arguments as it takes, an entry does
    what `Primitive.run` says, with the reader of the namespace in force;
  * `World.callByName_equals`, …: the same of some of them, from what they answer.
-/
import LispCore.Session

namespace LispCore

theorem Primitive.ofName?_name (p : Primitive) : ofName? p.name = some p := by
  cases p <;> decide

/-- So every namespace has an entry under its name. -/
theorem Namespace.lookup_name (ns : Namespace) (p : Primitive) :
    ns.lookup p.name = .ok (.entry p ns.reader) := by
  rw [lookup, Primitive.ofName?_name]

/-- The number of arguments is one that the entry takes. -/
def Primitive.Takes (p : Primitive) (arguments : List Value) : Prop :=
  ∀ n ∈ p.operands?, arguments.length = n

theorem Primitive.fault?_eq_none_iff {p : Primitive} {arguments : List Value} :
    p.arity.fault? arguments.length = none ↔ p.Takes arguments := by
  rw [Arity.fault?_eq_none_iff, Primitive.arity, Primitive.Takes]
  cases p.operands? with
  | none => simp [Arity.Accepts]
  | some n =>
    refine ⟨fun h m hm => ?_, fun h => congrArg Int.ofNat (h n rfl)⟩
    cases hm
    exact Int.ofNat_inj.1 h

namespace Primitive.Takes

variable {p : Primitive} {arguments : List Value} (h : p.Takes arguments)
include h

/-- The argument of an entry that takes one. -/
theorem one (hp : p.operands? = some 1) : ∃ a, arguments = [a] :=
  List.length_eq_one_iff.1 (h 1 hp)

/-- The arguments of an entry that takes two. -/
theorem two (hp : p.operands? = some 2) : ∃ a b, arguments = [a, b] :=
  match arguments, h 2 hp with
  | [a, b], _ => ⟨a, b, rfl⟩

end Primitive.Takes

theorem Function.apply_entry (world : World) (p : Primitive) (reader : Reader)
    (arguments : List Value) : (Function.entry p reader).apply world arguments =
      match p.arity.fault? arguments.length with
      | some fault => .failed (fault.error p.name)
      | none => p.run world reader arguments := rfl

/-- An entry does what its body does with the arguments, if it takes so many. -/
theorem Function.apply_of_takes {p : Primitive} {arguments : List Value} (h : p.Takes arguments)
    (world : World) (reader : Reader) :
    (entry p reader).apply world arguments = p.run world reader arguments := by
  rw [apply_entry, Primitive.fault?_eq_none_iff.2 h]

namespace World

theorem callByName_name (world : World) {p : Primitive} {arguments : List Value}
    (h : p.Takes arguments) :
    world.callByName p.name arguments = p.run world world.scope.reader arguments := by
  rw [callByName, Namespace.lookup_name]
  exact Function.apply_of_takes h world _

theorem callByName_one (world : World) {p : Primitive} (hp : p.operands? = some 1) (a : Value) :
    world.callByName p.name [a] = p.run world world.scope.reader [a] := by
  refine world.callByName_name ?_
  intro n hn
  rw [hp] at hn
  cases hn
  rfl

theorem callByName_two (world : World) {p : Primitive} (hp : p.operands? = some 2)
    (a b : Value) : world.callByName p.name [a, b] = p.run world world.scope.reader [a, b] := by
  refine world.callByName_name ?_
  intro n hn
  rw [hp] at hn
  cases hn
  rfl

theorem callByName_equals (world : World) {a b : Value} {r : Bool}
    (h : a.equal world.depthLimit b = .ok r) :
    world.callByName "=" [a, b] = .quiet (.ok (.boolean r)) := by
  refine (world.callByName_two (p := .equals) rfl a b).trans ?_
  rw [Primitive.run, h]
  rfl

theorem renderSeq_singleton (mode : Mode) (limit : Nat) (separator : String) (v : Value) :
    renderSeq mode limit separator [v] = v.text mode limit := by
  rw [renderSeq, renderAll, Value.text]
  cases v.render mode limit 0 <;> rfl

theorem callByName_list (world : World) (arguments : List Value) :
    world.callByName "list" arguments = .quiet (.ok (.list arguments)) :=
  world.callByName_name (p := .list) fun n hn => by cases hn

theorem callByName_prStr_seq (world : World) (arguments : List Value) :
    world.callByName "pr-str" arguments =
      .quiet ((renderSeq .readable world.depthLimit " " arguments).map .string) :=
  world.callByName_name (p := .prStr) fun n hn => by cases hn

theorem callByName_prStr_eq (world : World) (v : Value) : world.callByName "pr-str" [v] =
    .quiet ((v.text .readable world.depthLimit).map .string) := by
  rw [callByName_prStr_seq, renderSeq_singleton]

theorem callByName_prStr (world : World) {v : Value} {t : String}
    (h : v.text .readable world.depthLimit = .ok t) :
    world.callByName "pr-str" [v] = .quiet (.ok (.string t)) := by
  rw [world.callByName_prStr_eq, h]
  rfl

theorem callByName_grammar (world : World) (hreader : world.scope.reader = .grammar)
    (s : String) : world.callByName "read-string" [.string s] =
      ⟨(readFirst s).mapError .unreadable, "", [.delegating s.length]⟩ := by
  refine (world.callByName_one (p := .readString) rfl (.string s)).trans ?_
  rw [Primitive.run, hreader]
  rfl

theorem callByName_readString (world : World) (hreader : world.scope.reader = .grammar)
    {t : String} {v : Value} (h : readFirst t = .ok v) :
    world.callByName "read-string" [.string t] = ⟨.ok v, "", [.delegating t.length]⟩ := by
  rw [world.callByName_grammar hreader, h]
  rfl

end World

end LispCore

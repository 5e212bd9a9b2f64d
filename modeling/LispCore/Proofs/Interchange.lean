/-
  LispCore — an integer stands for its double in every call.

  Integers take paths of their own through arithmetic, comparison, rendering and the
  descriptions in errors.  Where an integer is exactly a double, all of them come to what
  they come to for that double.

  * `Value.expectNumber_widened`, `Value.describe_widened`, …: what the entries ask of an
    argument;
  * `Primitive.run_widened`: every entry but `list` does the same with the arguments
    replaced;
  * `Function.apply_widened`, `World.call_widened`: the same of calls, whose results become
    the same, with `list` among them.
-/
import LispCore.Proofs.Call
import LispCore.Proofs.Widening

namespace LispCore

namespace Value

/-! ## Arguments -/

theorem widened_cases (v : Value) : v.widened = v ∨
    (∃ n, IsExact n ∧ v = integer n ∧ v.widened = number (Double.ofInt n)) ∨
    ∃ xs, v = list xs ∧ v.widened = list (xs.map widened) := by
  cases v with
  | list xs => exact Or.inr (Or.inr ⟨xs, rfl, widened_list xs⟩)
  | integer n =>
    rw [widened_atom fun xs h => by cases h]
    exact (integer n).widenAtom_cases.imp_right Or.inl
  | _ => exact Or.inl rfl

section
variable (v : Value) (operator : String) (position : Int)

theorem describe_widened : v.widened.describe = v.describe := by
  rcases v.widened_cases with h | ⟨n, hn, rfl, h⟩ | ⟨xs, rfl, h⟩ <;> rw [h]
  · rw [describe, describe, variant, variant, widen_of_some hn.ofInt?]
    rfl
  · rfl

theorem mismatch_widened (wanted : Variant) :
    mismatch operator position wanted v.widened = mismatch operator position wanted v := by
  rw [mismatch, mismatch, describe_widened]

theorem expectNumber_widened :
    expectNumber operator position v.widened = expectNumber operator position v := by
  rcases v.widened_cases with h | ⟨n, hn, rfl, h⟩ | ⟨xs, rfl, h⟩ <;> rw [h]
  · rw [expectNumber, expectNumber, widen_of_some hn.ofInt?]
    rfl
  · rfl

theorem expectString_widened :
    expectString operator position v.widened = expectString operator position v := by
  have herror := v.mismatch_widened operator position .string
  rcases v.widened_cases with h | ⟨n, hn, rfl, h⟩ | ⟨xs, rfl, h⟩ <;> rw [h] at herror ⊢
  · exact congrArg Except.error herror
  · exact congrArg Except.error herror

theorem isList_widened : v.widened.isList = v.isList := by
  rcases v.widened_cases with h | ⟨n, -, rfl, h⟩ | ⟨xs, rfl, h⟩ <;> rw [h] <;> rfl

theorem isEmptyList_widened : v.widened.isEmptyList = v.isEmptyList := by
  rcases v.widened_cases with h | ⟨n, -, rfl, h⟩ | ⟨xs, rfl, h⟩ <;> rw [h]
  · rfl
  · cases xs <;> rfl

theorem countElements_widened : v.widened.countElements = v.countElements := by
  rcases v.widened_cases with h | ⟨n, -, rfl, h⟩ | ⟨xs, rfl, h⟩ <;> rw [h]
  · rfl
  · exact List.length_map widened

end

theorem renderSeq_widened (mode : Mode) (limit : ℕ) (separator : String) (xs : List Value) :
    renderSeq mode limit separator (xs.map widened) = renderSeq mode limit separator xs := by
  rw [renderSeq, renderSeq, renderAll_map fun x _ => render_widened mode limit 0 x]

theorem map_widened_idem (xs : List Value) :
    (xs.map widened).map widened = xs.map widened := by
  rw [List.map_map]
  exact List.map_congr_left fun x _ => x.widened_idem

end Value

/-! ## Entries -/

section
variable (operator : String) (a b : Value)

theorem arithmetic_widened (operation : Double → Double → Except Error Double) :
    arithmetic operator operation a.widened b.widened = arithmetic operator operation a b := by
  rw [arithmetic, arithmetic, Value.expectNumber_widened, Value.expectNumber_widened]

theorem comparison_widened (relation : Double → Double → Bool) :
    comparison operator relation a.widened b.widened = comparison operator relation a b := by
  rw [comparison, comparison, Value.expectNumber_widened, Value.expectNumber_widened]

end

theorem printLine_widened (mode : Mode) (limit : ℕ) (xs : List Value) :
    printLine mode limit (xs.map Value.widened) = printLine mode limit xs := by
  rw [printLine, printLine, Value.renderSeq_widened]

namespace Primitive

variable {p : Primitive} {arguments : List Value}

/-- **Every entry but `list`** does the same with an integer and with the double that is
    exactly that integer. -/
theorem run_widened (world : World) (reader : Reader) (h : p.Takes arguments) (hp : p ≠ .list) :
    p.run world reader (arguments.map Value.widened) = p.run world reader arguments := by
  cases p with
  | list => exact absurd rfl hp
  | add | sub | mul | div =>
    obtain ⟨a, b, rfl⟩ := h.two rfl
    exact congrArg Observed.quiet (arithmetic_widened _ a b _)
  | less | greater | atMost | atLeast =>
    obtain ⟨a, b, rfl⟩ := h.two rfl
    exact congrArg Observed.quiet (comparison_widened _ a b _)
  | equals =>
    obtain ⟨a, b, rfl⟩ := h.two rfl
    exact congrArg (fun r => Observed.quiet (Except.map Value.boolean r))
      (Value.equal_widened world.depthLimit a b)
  | isList =>
    obtain ⟨a, rfl⟩ := h.one rfl
    exact congrArg (fun r => Observed.quiet (.ok (.boolean r))) a.isList_widened
  | isEmpty =>
    obtain ⟨a, rfl⟩ := h.one rfl
    exact congrArg (fun r => Observed.quiet (.ok (.boolean r))) a.isEmptyList_widened
  | count =>
    obtain ⟨a, rfl⟩ := h.one rfl
    exact congrArg (fun n => Observed.quiet (.ok (countNumber n))) a.countElements_widened
  | readString =>
    obtain ⟨a, rfl⟩ := h.one rfl
    change delegate world reader a.widened = delegate world reader a
    unfold delegate
    rw [Value.expectString_widened]
  | slurp =>
    obtain ⟨a, rfl⟩ := h.one rfl
    change readFile world a.widened = readFile world a
    unfold readFile
    rw [Value.expectString_widened]
  | prStr | str =>
    exact congrArg (fun t => Observed.quiet (Except.map Value.string t))
      (Value.renderSeq_widened _ world.depthLimit _ arguments)
  | prn | println => exact printLine_widened _ world.depthLimit arguments

end Primitive

/-- What a call does, with the doubles that are exactly integers in their place in the
    value that it answers. -/
def Observed.widened (o : Observed) : Observed := { o with result := o.result.map Value.widened }

/-- **A call answers the same** with the arguments replaced, once its value is replaced
    too. -/
theorem Function.apply_widened (world : World) (p : Primitive) (reader : Reader)
    (arguments : List Value) :
    ((entry p reader).apply world (arguments.map Value.widened)).widened =
      ((entry p reader).apply world arguments).widened := by
  rw [apply_entry, apply_entry, List.length_map]
  cases hfault : p.arity.fault? arguments.length with
  | some fault => rfl
  | none =>
    by_cases hp : p = .list
    · -- `list` answers its arguments as they are
      subst hp
      change Observed.quiet (.ok (Value.list (arguments.map Value.widened)).widened) =
        .quiet (.ok (Value.list arguments).widened)
      rw [Value.widened_list, Value.widened_list, Value.map_widened_idem]
    · exact congrArg Observed.widened
        (Primitive.run_widened world reader (Primitive.fault?_eq_none_iff.1 hfault) hp)

/-- **An integer that is exactly a double stands for it in every call.**  Whatever entry
    of a namespace is called, in whatever world, on any arguments: with such integers
    replaced at any depth, the call writes and logs the same, and answers the same error,
    or a value that becomes the same when they are replaced there too.  Any stage beyond
    the limit stands for arguments that contain themselves. -/
theorem World.call_widened (world : World) (ns : Namespace) (p : Primitive)
    (arguments : List Unfolding) (n : ℕ) :
    ∃ f, ns.lookup p.name = .ok f ∧
      (f.apply world (arguments.map fun a => a.widened.stage n)).widened =
        (f.apply world (arguments.map fun a => a.stage n)).widened := by
  refine ⟨.entry p ns.reader, by rw [Namespace.lookup, Primitive.ofName?_name], ?_⟩
  have hargs : (arguments.map fun a => a.widened.stage n) =
      (arguments.map fun a => a.stage n).map Value.widened := by
    rw [List.map_map]
    rfl
  rw [hargs, Function.apply_widened]

end LispCore

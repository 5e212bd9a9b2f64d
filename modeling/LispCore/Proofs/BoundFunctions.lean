/-
  LispCore — where functions come from.

  An entry of a namespace asks one reader for good, so what matters of a function is where
  it comes from: a call answers those that are in its arguments, in the variables, or in
  the namespace in force.

  * `Value.BoundTo S`: the entries anywhere in a value ask readers of the sort `S`;
  * `Expression.boundTo_eval`: those in the value of an expression;
  * `Value.boundTo_apply`: those in what a call answers.
-/
import LispCore.Function.Apply
import LispCore.Proofs.ReadBack

namespace LispCore

/-! ## Functions anywhere in a value -/

namespace Value

/-- The entries of namespaces that are anywhere in the value ask readers of the sort. -/
def BoundTo (S : Reader → Prop) (v : Value) : Prop :=
  ∀ path w, v.at? path = some w → ∀ p reader, w = function (.entry p reader) → S reader

variable {S : Reader → Prop}

theorem boundTo_list {xs : List Value} : (list xs).BoundTo S ↔ ∀ x ∈ xs, x.BoundTo S := by
  rw [BoundTo, forall_positions_list
    (P := fun _ w => ∀ p reader, w = function (.entry p reader) → S reader)]
  exact and_iff_right fun _ _ h => by cases h

theorem boundTo_atom {v : Value} (hv : ∀ xs, v ≠ list xs) :
    v.BoundTo S ↔ ∀ p reader, v = function (.entry p reader) → S reader :=
  forall_positions_atom (P := fun _ w => ∀ p reader, w = function (.entry p reader) → S reader) hv

/-- What holds neither elements nor a function. -/
structure Flat (v : Value) : Prop where
  not_list : ∀ xs, v ≠ list xs
  not_function : ∀ f, v ≠ function f

theorem Flat.boundTo {v : Value} (h : v.Flat) : v.BoundTo S :=
  (boundTo_atom h.not_list).2 fun _ _ hf => absurd hf (h.not_function _)

theorem flat_number (x : Double) : (number x).Flat := ⟨by simp, by simp⟩

theorem flat_string (s : String) : (string s).Flat := ⟨by simp, by simp⟩

theorem flat_symbol (name : String) : (symbol name).Flat := ⟨by simp, by simp⟩

theorem flat_boolean (b : Bool) : (boolean b).Flat := ⟨by simp, by simp⟩

theorem flat_nil : nil.Flat := ⟨by simp, by simp⟩

theorem boundTo_wrap {v : Value} (h : v.BoundTo S) (n : ℕ) : (v.wrap n).BoundTo S := by
  induction n generalizing v with
  | zero => exact h
  | succ n ih => exact ih (boundTo_list.2 (by simpa using h))

theorem boundTo_unroll {before after : List Value} (hb : ∀ x ∈ before, x.BoundTo S)
    (ha : ∀ x ∈ after, x.BoundTo S) (n : ℕ) : (unroll before after n).BoundTo S := by
  induction n with
  | zero => exact boundTo_list.2 (by simp)
  | succ n ih =>
    refine boundTo_list.2 ?_
    intro x hx
    rcases List.mem_append.1 hx with hx | hx
    · exact hb x hx
    · rcases List.mem_cons.1 hx with rfl | hx
      · exact ih
      · exact ha x hx

theorem Legible.boundTo {v : Value} (h : v.Legible) : v.BoundTo S := by
  induction h with
  | list _ ih => exact boundTo_list.2 ih
  | _ => exact (boundTo_atom (by simp)).2 (by simp)

end Value

mutual

/-- An expression takes functions from the variables and from the namespace in force. -/
theorem Expression.boundTo_eval {S : Reader → Prop} {bindings : String → Value} {reader : Reader}
    (hb : ∀ x, (bindings x).BoundTo S) (hr : S reader) :
    ∀ e : Expression, (e.eval bindings reader).BoundTo S
  | .number _ | .integer _ | .string _ | .symbol _ | .boolean _ | .nil | .foreign _
  | .custom _ => by
    rw [Expression.eval]
    exact (Value.boundTo_atom (by simp)).2 (by simp)
  | .entry p => by
    rw [Expression.eval]
    refine (Value.boundTo_atom (by simp)).2 ?_
    intro _ _ h
    cases h
    exact hr
  | .variable x => by
    rw [Expression.eval]
    exact hb x
  | .list es => by
    rw [Expression.eval]
    exact Value.boundTo_list.2 (boundTo_evalAll hb hr es)
  | .wrapped n e => by
    rw [Expression.eval]
    exact Value.boundTo_wrap (e.boundTo_eval hb hr) n
  | .copies n e => by
    rw [Expression.eval]
    refine Value.boundTo_list.2 fun x hx => ?_
    rw [List.eq_of_mem_replicate hx]
    exact e.boundTo_eval hb hr
  | .cycle before after => by
    rw [Expression.eval]
    exact Value.boundTo_unroll (boundTo_evalAll hb hr before) (boundTo_evalAll hb hr after) _

theorem boundTo_evalAll {S : Reader → Prop} {bindings : String → Value} {reader : Reader}
    (hb : ∀ x, (bindings x).BoundTo S) (hr : S reader) :
    ∀ es : List Expression, ∀ v ∈ evalAll bindings reader es, v.BoundTo S
  | [] => by simp [evalAll]
  | e :: rest => by
    rw [evalAll]
    exact List.forall_mem_cons.2 ⟨e.boundTo_eval hb hr, boundTo_evalAll hb hr rest⟩

end

/-! ## What calls answer -/

section
variable {ε α β : Type} {P : β → Prop}

/-- A result that, if it is a value, is one of the sort. -/
def Yields (P : β → Prop) (x : Except ε β) : Prop := ∀ b, x = .ok b → P b

namespace Yields

theorem ok {b : β} (h : P b) : Yields P (.ok b : Except ε β) := by
  rintro _ ⟨⟩
  exact h

theorem error (e : ε) : Yields P (.error e : Except ε β) := by
  rintro _ ⟨⟩

theorem bind {x : Except ε α} {f : α → Except ε β} (hf : ∀ a, Yields P (f a)) :
    Yields P (x >>= f) := by
  cases x with
  | ok a => exact hf a
  | error e => exact error e

theorem map {x : Except ε α} {f : α → β} (hf : ∀ a, P (f a)) : Yields P (x.map f) := by
  cases x with
  | ok a => exact ok (hf a)
  | error e => exact error e

theorem mono {Q : β → Prop} {x : Except ε β} (hx : Yields P x) (h : ∀ b, P b → Q b) :
    Yields Q x :=
  fun b hb => h b (hx b hb)

end Yields

end

theorem flat_arithmetic (operator : String) (operation : Double → Double → Except Error Double)
    (a b : Value) : Yields Value.Flat (arithmetic operator operation a b) :=
  .bind fun _ => .bind fun _ => .bind fun z => .ok (Value.flat_number z)

theorem flat_comparison (operator : String) (relation : Double → Double → Bool) (a b : Value) :
    Yields Value.Flat (comparison operator relation a b) :=
  .bind fun x => .bind fun y => .ok (Value.flat_boolean (relation x y))

theorem flat_printLine (mode : Mode) (limit : ℕ) (arguments : List Value) :
    Yields Value.Flat (printLine mode limit arguments).result := by
  unfold printLine
  split
  · exact .ok Value.flat_nil
  · exact .error _

theorem flat_readFile (world : World) (path : Value) :
    Yields Value.Flat (readFile world path).result := by
  unfold readFile
  split
  · exact .error _
  · split
    · exact .error _
    · exact .ok (Value.flat_string _)

namespace Value

variable {S : Reader → Prop}

/-- A reader answers functions from the variables and from the namespace in force. -/
theorem boundTo_read {world : World} (hb : ∀ x, (world.bindings x).BoundTo S)
    (hr : S world.scope.reader) (reader : Reader) (source : String) :
    Yields (BoundTo S) (reader.read world source) := by
  cases reader with
  | absent => exact .error _
  | grammar =>
    rw [Reader.read]
    cases hread : readFirst source with
    | error fault => exact .error _
    | ok v =>
      obtain ⟨-, _, _, -, hv⟩ := exists_derives_of_readFirst hread
      exact .ok hv.legible.boundTo
  | answering answer =>
    rw [Reader.read]
    cases answer source with
    | ok e => exact .ok (e.boundTo_eval hb hr)
    | error fault => exact .error _

theorem boundTo_delegate {world : World} (hb : ∀ x, (world.bindings x).BoundTo S)
    (hr : S world.scope.reader) (reader : Reader) (source : Value) :
    Yields (BoundTo S) (delegate world reader source).result := by
  unfold delegate
  split
  · exact .error _
  · exact .error _
  · exact boundTo_read hb hr _ _

/-- An entry answers functions from its arguments or from its reader. -/
theorem boundTo_run {world : World} (hb : ∀ x, (world.bindings x).BoundTo S)
    (hr : S world.scope.reader) (reader : Reader) (p : Primitive) {arguments : List Value}
    (ha : ∀ v ∈ arguments, v.BoundTo S) :
    Yields (BoundTo S) (p.run world reader arguments).result := by
  have flat {x : Except Error Value} (h : Yields Flat x) : Yields (BoundTo S) x :=
    h.mono fun _ hv => hv.boundTo
  unfold Primitive.run
  split
  case h_1 | h_2 | h_3 | h_4 => exact flat (flat_arithmetic _ _ _ _)
  case h_5 | h_6 | h_7 | h_8 => exact flat (flat_comparison _ _ _ _)
  case h_9 => exact flat (.map flat_boolean)
  case h_10 | h_11 => exact flat (.ok (flat_boolean _))
  case h_12 => exact flat (.ok (flat_number _))
  case h_13 => exact boundTo_delegate hb hr reader _
  case h_14 => exact flat (flat_readFile world _)
  case h_15 => exact .ok (boundTo_list.2 ha)
  case h_16 | h_17 => exact flat (.map flat_string)
  case h_18 | h_19 => exact flat (flat_printLine _ _ arguments)
  case h_20 => exact .error _

theorem boundTo_apply {world : World} (hb : ∀ x, (world.bindings x).BoundTo S)
    (hr : S world.scope.reader) (f : Function) {arguments : List Value}
    (ha : ∀ v ∈ arguments, v.BoundTo S) :
    Yields (BoundTo S) (f.apply world arguments).result := by
  unfold Function.apply
  split
  · exact .error _
  · cases f with
    | entry p reader => exact boundTo_run hb hr reader p ha
    | custom c =>
      change Yields (BoundTo S) (c.body.run arguments)
      unfold Body.run
      split
      · exact .ok (boundTo_list.2 ha)
      · exact .ok (boundTo_list.2 ha)
      · exact .ok (boundTo_list.2 ha)
      · exact .ok (boundTo_list.2 (List.forall_mem_cons.2 ⟨flat_nil.boundTo, ha⟩))
      · exact .ok (flat_number _).boundTo
      · exact .error _

end Value

end LispCore

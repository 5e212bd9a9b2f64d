/-
  LispCore — how many arguments a function accepts.

  * `Arity`: any number, an exact one, or a range whose upper end may be open;
  * `ArityFault`: why a number of arguments is refused;
  * `Arity.fault?`: the gate, which answers for a number of arguments either
    nothing or the fault;
  * `Arity.Accepts`: the numbers inside the accepted interval, and
    `Arity.fault?_eq_none_iff`: these are the ones that pass the gate;
  * `ArityFault.message`: the text of a fault, which shows a bound of the arity, and
    `ArityFault.Reportable`: whether the bound can be shown.
-/
import LispCore.Text.Integer

namespace LispCore

/-- How many arguments a function accepts.  The bounds are any integers: a
    negative least number refuses nothing, and a range whose ends are the wrong
    way round refuses everything. -/
inductive Arity where
  /-- Any number. -/
  | any
  /-- Exactly `n`. -/
  | exactly (n : Int)
  /-- At least `low`, and at most `high` if that is given. -/
  | between (low : Int) (high : Option Int)
  deriving DecidableEq, Repr

/-- Why a number of arguments is refused. -/
inductive ArityFault where
  /-- It is not the one number that is accepted. -/
  | notExactly (n : Int) (got : Nat)
  /-- It is less than the least one. -/
  | tooFew (low : Int) (got : Nat)
  /-- It is more than the greatest one. -/
  | tooMany (high : Int) (got : Nat)
  deriving DecidableEq, Repr

namespace Arity

/-- Why `count` arguments are refused, if they are.  The lower end of a range is
    consulted first. -/
def fault? (arity : Arity) (count : Nat) : Option ArityFault :=
  match arity with
  | any => none
  | exactly n => if (count : Int) = n then none else some (.notExactly n count)
  | between low high =>
    if (count : Int) < low then some (.tooFew low count)
    else
      match high with
      | none => none
      | some h => if h < (count : Int) then some (.tooMany h count) else none

/-- A number of arguments is in the accepted interval. -/
def Accepts (arity : Arity) (count : Nat) : Prop :=
  match arity with
  | any => True
  | exactly n => (count : Int) = n
  | between low high => low ≤ count ∧ ∀ h ∈ high, (count : Int) ≤ h

theorem fault?_eq_none_iff (arity : Arity) (count : Nat) :
    arity.fault? count = none ↔ arity.Accepts count := by
  cases arity with
  | any => simp [fault?, Accepts]
  | exactly n => simp [fault?, Accepts]
  | between low high =>
    cases high with
    | none => simp [fault?, Accepts]
    | some h =>
      by_cases hl : (count : Int) < low
      · simp [fault?, Accepts, hl, Int.not_le.2 hl]
      · simp [fault?, Accepts, hl, Int.not_lt.1 hl]

end Arity

namespace ArityFault

/-- The bound that the number of arguments does not keep to. -/
def bound : ArityFault → Int
  | notExactly n _ => n
  | tooFew low _ => low
  | tooMany high _ => high

/-- The bound can be put into text, as every report of the fault does. -/
def Reportable (fault : ArityFault) : Prop := Text.Writable fault.bound

instance (fault : ArityFault) : Decidable fault.Reportable :=
  inferInstanceAs (Decidable (Text.Writable _))

/-- What a function of the given name says about the fault, if it is reportable. -/
def message (function : String) : ArityFault → String
  | notExactly n got =>
    let noun := if n = 1 then "argument" else "arguments"
    s!"{function} requires exactly {n} {noun}, got {got}"
  | tooFew low got => s!"{function} requires at least {low} arguments, got {got}"
  | tooMany high got => s!"{function} accepts at most {high} arguments, got {got}"

end ArityFault

end LispCore

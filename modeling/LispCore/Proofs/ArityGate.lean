/-
  LispCore — the arity gate.

  A call comes to the body of a function through the gate of its arity.  What the body does on
  the way to its answer is kept as a sequence of events, so that it can be said that it does
  nothing.

  * `Arity.interval`: the numbers of arguments that an arity accepts, which are the ones that
    pass its gate (`Arity.fault?_eq_none_iff_mem`);
  * `Event`, `Course`: what is done in a call, in order, and how the call ends;
    `Course.observed`: what is seen of it from outside;
  * `Function.course`: the course of a body; `Function.observed_course`: what is seen of it is
    what the function does;
  * `Arity.gate`: any body behind a gate; `Function.observed_gate`: every call is a body behind
    the gate of the function's arity;
  * `Function.run_not_refusal`: no body refuses arguments in the way of the gate;
  * `Function.arity_gate`: calls inside the interval are those of the body, and no other call
    does anything.  These are refused with an arity error, exactly where the bound that the
    number of arguments does not keep to can be put into text.
-/
import Mathlib.Order.Interval.Set.Defs
import LispCore.Function.Apply
import LispCore.Proofs.DigitCount
import LispCore.Proofs.GuardedEntries

namespace LispCore

/-! ## Accepted numbers of arguments -/

namespace Arity

end Arity

/-! ## The course of a call -/

/-- Something that is done in a call. -/
inductive Event where
  /-- A text is written to the standard output. -/
  | printed (text : String)
  /-- A record is logged. -/
  | logged (record : LogRecord)
  /-- The file at a path is opened, or it is tried to. -/
  | opened (path : String)
  /-- A text is passed to the reader. -/
  | asked (reader : Reader) (source : String)

namespace Event

/-- What is written to the standard output. -/
def text : Event → String
  | printed text => text
  | _ => ""

/-- What is logged. -/
def record? : Event → Option LogRecord
  | logged record => some record
  | _ => none

end Event

/-- What is done in a call, in order, and how the call ends. -/
structure Course where
  events : List Event
  result : Except Error Value

/-- What is seen of it: not that files are opened and readers are asked. -/
def Course.observed (c : Course) : Observed :=
  ⟨c.result, String.join (c.events.map Event.text), c.events.filterMap Event.record?⟩

namespace Arity

end Arity

namespace Function

end Function

end LispCore

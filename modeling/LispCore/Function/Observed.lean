/-
  LispCore — what a call does.

  A call answers a value or an error; besides, it may write to the standard
  output and to the log, and nothing else about it can be observed.

  * `LogRecord`: what is logged, and its text;
  * `Observed`: a result with the output and the log of the call;
  * `Observed.quiet`, `Observed.failed`: a call that writes nothing.
-/
import LispCore.Error

namespace LispCore

/-- What is logged. -/
inductive LogRecord where
  /-- A namespace of so many entries was built. -/
  | builtNamespace (entries : Nat)
  /-- A text of so many characters is handed to the reader. -/
  | delegating (characters : Nat)
  /-- So many characters were read from the file at the path. -/
  | fileRead (characters : Nat) (path : String)
  deriving DecidableEq, Repr

/-- The text of a record, its level first. -/
def LogRecord.text : LogRecord → String
  | builtNamespace entries => s!"DEBUG built core namespace with {entries} functions"
  | delegating characters =>
    s!"DEBUG read-string delegating {characters} characters to reader"
  | fileRead characters path => s!"DEBUG slurp read {characters} characters from {path}"

/-- What a call does, as far as it can be observed. -/
structure Observed where
  result : Except Error Value
  /-- What it writes to the standard output. -/
  out : String
  /-- What it writes to the log. -/
  log : List LogRecord

namespace Observed

/-- A call that writes nothing. -/
def quiet (result : Except Error Value) : Observed := ⟨result, "", []⟩

/-- A call that writes nothing and fails. -/
def failed (e : Error) : Observed := quiet (.error e)

end Observed

end LispCore

/-
  LispCore — errors.

  * `Error`: everything that can go wrong, as causes;
  * `Error.kind`: the class of an error;
  * `Error.message`: its text;
  * `ArityFault.error`: what comes of refusing a number of arguments.

  A fault of a file, of an encoding or of a source text has a type of its own,
  and is an error here together with what was being done.  So are the failures of
  the machine that nothing in the library handles: they have classes of their own,
  outside those of the library.
-/
import LispCore.File.Fault
import LispCore.Value.Variant

namespace LispCore

/-- Why a source text cannot be read. -/
inductive ReadFault where
  /-- It holds nothing but blanks. -/
  | nothingThere
  /-- It begins with a closing parenthesis. -/
  | unexpectedClose
  /-- It begins with a list that is not complete. -/
  | unmatchedOpen
  /-- It begins with a double quote that opens no complete string; `first` is the
      first character of the text, blank or not. -/
  | unexpectedChar (first : Char)
  /-- It opens more lists inside each other than the stack has room for, whatever
      follows them. -/
  | stackExhausted
  deriving DecidableEq, Repr

/-- The text of a fault.  A character is always reported at the start, because
    faults further on lie inside a list. -/
def ReadFault.message : ReadFault → String
  | nothingThere => "Unexpected EOF"
  | unexpectedClose => "Unexpected ')'"
  | unmatchedOpen => "Unmatched '('"
  | unexpectedChar first =>
    "Unexpected char at 0: " ++ String.ofList (Text.quoted [first])
  | stackExhausted =>
    "read-string: maximum recursion depth exceeded while calling a Python object"

/-- What walks down a value and may find it too deep. -/
inductive Walk where
  | rendering
  | comparing
  deriving DecidableEq, Repr

/-- What a message says is too deep. -/
def Walk.subject : Walk → String
  | rendering => "Value"
  | comparing => "Equality"

/-- What can go wrong. -/
inductive Error where
  /-- Something that is no value has no variant. -/
  | noVariant (reason : NoVariant)
  /-- The argument of `operator` at `position`, which is one that can be put into text, is
      not of the variant wanted. -/
  | wrongArgument (operator : String) (position : Int) (wanted : Variant) (got : String)
  /-- Something that is no value cannot be rendered. -/
  | unprintable (type : String)
  /-- Something that is no value cannot be compared. -/
  | incomparable (type : String)
  /-- A value has elements inside more than `limit` lists. -/
  | tooDeep (walk : Walk) (limit : Nat)
  /-- The limit is not reached, but the stack is. -/
  | stackExhausted (walk : Walk)
  /-- The function of that name does not accept so many arguments, for a bound that
      can be shown. -/
  | arity (function : String) (fault : ArityFault) (reportable : fault.Reportable)
  /-- A message is to show an integer that has too many digits to be put into text. -/
  | tooManyDigits
  /-- What an entry does is given a number of arguments that it is not made for. -/
  | miscalled (given : Nat)
  /-- A divisor is zero. -/
  | divisionByZero
  /-- No function has the name. -/
  | unknownFunction (name : String)
  /-- There is no reader to delegate to. -/
  | noReader
  /-- The reader refuses the source text. -/
  | unreadable (fault : ReadFault)
  /-- The reader fails in a way of its own, for which it has this text. -/
  | readerFailed (text : String)
  /-- The file at `path` cannot be read. -/
  | unreadableFile (path : String) (fault : FileFault)
  /-- An error or a failure of the given class that comes from outside the library. -/
  | raised (kind : Kind) (text : String)
  deriving DecidableEq, Repr

namespace Error

/-- The class of an error. -/
def kind : Error → Kind
  | noVariant _ | wrongArgument .. | unprintable _ => .type
  | incomparable _ => .equality
  | tooDeep .. | stackExhausted _ => .recursion
  | arity .. => .arity
  | tooManyDigits => .machine .value
  | miscalled _ => .machine .type
  | divisionByZero => .zeroDivision
  | unknownFunction _ => .name
  | noReader => .reader
  | unreadable _ | readerFailed _ => .grammar
  | unreadableFile .. => .io
  | raised kind _ => kind

/-- The text of an error.  Of those that are the machine's own it is given in outline,
    but for the one about digits. -/
def message : Error → String
  | noVariant (.foreign type) => "Not a mal value: " ++ type
  | noVariant (.oversized bits) => s!"Integer of {bits} bits is too large for a number"
  | wrongArgument operator position wanted got =>
    s!"{operator}: argument {position} must be a {wanted.name}, got {got}"
  | unprintable type => "Cannot print " ++ type
  | incomparable type => "No equals operation implemented for type: " ++ type
  | tooDeep walk limit => s!"{walk.subject} nests deeper than {limit} levels"
  | stackExhausted walk => walk.subject ++ " nests deeper than the stack allows"
  | arity function fault _ => fault.message function
  | tooManyDigits => Text.digitLimitText
  | miscalled given => s!"{given} positional arguments were given"
  | divisionByZero => "Division by zero"
  | unknownFunction name => "Unknown function: " ++ name
  | noReader => "read-string: no reader installed"
  | unreadable fault => fault.message
  | readerFailed text => "read-string: " ++ text
  | unreadableFile path fault =>
    s!"slurp: cannot read {quotedPath path}: {fault.message path}"
  | raised _ text => text

end Error

/-- What comes of a fault under the name of a function.  The error shows the bound that
    the number of arguments is measured against; where the bound cannot be put into text,
    the machine fails before there is an error. -/
def ArityFault.error (function : String) (fault : ArityFault) : Error :=
  if h : fault.Reportable then .arity function fault h else .tooManyDigits

end LispCore

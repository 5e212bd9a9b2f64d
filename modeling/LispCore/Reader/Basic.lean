/-
  LispCore — what can be installed as a reader.

  * `ReaderFault`: how a reader fails that was written elsewhere;
  * `Reader`: the readers, among them any function of the source text that answers or
    fails;
  * `Reader.echo`, `Reader.evaluating`, `Reader.failing`: three such functions.
-/
import LispCore.Error.Kind
import LispCore.Expression.Basic

namespace LispCore

/-- How a reader fails that was written elsewhere. -/
inductive ReaderFault where
  /-- With an error of class `kind`. -/
  | domain (kind : Kind) (message : String)
  /-- With any other failure. -/
  | other (message : String)
  /-- With the failure that a key is missing, which shows the key in quotes. -/
  | missingKey (key : String)
  /-- With any other failure, of which no text can be made: where it is asked for one, that
      fails in turn, in class `kind` and with the text given here. -/
  | textless (kind : Kind) (text : String)
  deriving DecidableEq, Repr

/-- What can be installed as a reader. -/
inductive Reader where
  /-- No reader is installed. -/
  | absent
  /-- The reader of the grammar. -/
  | grammar
  /-- A reader that was written elsewhere.  For a source text it fails, or answers what an
      expression stands for when it is asked. -/
  | answering (answer : String → Except ReaderFault Expression)

namespace Reader

/-- Answers the list of the symbol `source` and the text itself. -/
def echo : Reader := .answering fun source => .ok (.list [.symbol "source", .string source])

/-- Answers what the expression stands for when it is asked, whatever the text. -/
def evaluating (e : Expression) : Reader := .answering fun _ => .ok e

/-- Fails whatever the text. -/
def failing (fault : ReaderFault) : Reader := .answering fun _ => .error fault

end Reader

end LispCore

/-
  LispCore — reading values.

  The reader answers the first value of a source text and looks at nothing after
  it.

  * `atomValue`: what an atom means;
  * `readOpen`: reading inside lists that are still open, which are kept as a
    stack of the elements read so far;
  * `readFirst`: the first value of a text.
-/
import LispCore.Double.Literal
import LispCore.Nesting
import LispCore.Reader.Token

namespace LispCore

/-- What an atom means: nil, a boolean, a number, or else the symbol of that name. -/
def atomValue (s : List Char) : Value :=
  if s = "nil".toList then .nil
  else if s = "true".toList then .boolean true
  else if s = "false".toList then .boolean false
  else
    match Double.ofLiteral? s with
    | some x => .number x
    | none => .symbol (String.ofList s)

/-- Why a text has no first token: there is nothing in it, or a double quote that
    opens no string. -/
def noTokenFault (s : List Char) : ReadFault :=
  match s, s.dropWhile Text.isBlank with
  | first :: _, _ :: _ => .unexpectedChar first
  | _, _ => .nothingThere

/-- The first value that is complete, reading on from `s` with some lists open: the
    innermost one first, each by its elements so far, the last one first.  Inside a
    list every fault is that the list is not complete, but for the one that no more
    lists can be opened. -/
def readOpen (stack : List (List Value)) (s : List Char) : Except ReadFault Value :=
  match _h : Token.next? s with
  | none => .error (if stack = [] then noTokenFault s else .unmatchedOpen)
  | some (.openList, rest) =>
    if stack.length < stackLevels then readOpen ([] :: stack) rest else .error .stackExhausted
  | some (.closeList, rest) =>
    match stack with
    | [] => .error .unexpectedClose
    | [elements] => .ok (.list elements.reverse)
    | elements :: outer :: more => readOpen ((.list elements.reverse :: outer) :: more) rest
  | some (.text t, rest) =>
    match stack with
    | [] => .ok (.string (String.ofList t))
    | elements :: more => readOpen ((.string (String.ofList t) :: elements) :: more) rest
  | some (.atom t, rest) =>
    match stack with
    | [] => .ok (atomValue t)
    | elements :: more => readOpen ((atomValue t :: elements) :: more) rest
termination_by s.length
decreasing_by all_goals exact Token.length_of_next? _h

/-- The first value of a text. -/
def readFirst (source : String) : Except ReadFault Value := readOpen [] source.toList

end LispCore

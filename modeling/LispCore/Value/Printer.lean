/-
  LispCore — values as text.

  * `Mode`: readable text, which the reader can read back, or display text, in
    which strings stand as they are;
  * `Value.render`: the text of a value under a nesting limit.  The depth is
    checked before anything else about an element, then whether it is a value,
    then its own elements from left to right; the first failure is the answer;
  * `renderSeq`: the texts of a sequence of values with a separator between them;
  * `formatNumber`, `escapeString`: the text of a number and of a string.
-/
import LispCore.Double.Notation
import LispCore.Nesting
import LispCore.Text.Escape

namespace LispCore

/-- How strings are rendered. -/
inductive Mode where
  /-- As string literals. -/
  | readable
  /-- As they are. -/
  | display
  deriving DecidableEq, Repr

/-- The text of a number. -/
def formatNumber (x : Double) : String := x.text

/-- A string as a string literal. -/
def escapeString (s : String) : String := String.ofList (Text.escape s.toList)

/-- The texts with the separator between them. -/
def joinWith (separator : String) : List String → String
  | [] => ""
  | [t] => t
  | t :: u :: rest => t ++ separator ++ joinWith separator (u :: rest)

mutual

/-- The text of a value that lies inside `depth` lists. -/
def Value.render (mode : Mode) (limit depth : Nat) (v : Value) : Except Error String :=
  match depthError? .rendering limit depth with
  | some e => .error e
  | none =>
    match v with
    | .number x => .ok (formatNumber x)
    | .integer n =>
      match widen n with
      | .ok x => .ok (formatNumber x)
      | .error _ => .error (.unprintable v.typeName)
    | .string s =>
      match mode with
      | .readable => .ok (escapeString s)
      | .display => .ok s
    | .symbol name => .ok name
    | .boolean b => .ok (if b then "true" else "false")
    | .nil => .ok "nil"
    | .list elements => do
      let texts ← renderAll mode limit (depth + 1) elements
      .ok ("(" ++ joinWith " " texts ++ ")")
    | .function _ => .ok "#<function>"
    | .foreign type => .error (.unprintable type)

/-- The texts of values that lie inside `depth` lists. -/
def renderAll (mode : Mode) (limit depth : Nat) : List Value → Except Error (List String)
  | [] => .ok []
  | v :: rest => do
    let t ← v.render mode limit depth
    let texts ← renderAll mode limit depth rest
    .ok (t :: texts)

end

/-- The text of a value. -/
def Value.text (mode : Mode) (limit : Nat) (v : Value) : Except Error String :=
  v.render mode limit 0

/-- The texts of a sequence of values with a separator between them.  Each value
    is rendered on its own, inside no list. -/
def renderSeq (mode : Mode) (limit : Nat) (separator : String) (values : List Value) :
    Except Error String :=
  (renderAll mode limit 0 values).map (joinWith separator)

end LispCore

/-
  LispCore — string literals.

  * `escape`: a text as a string literal: between double quotes, with a
    backslash before backslashes and double quotes and `\n` for a newline;
  * `unescapeChar`: what a character after a backslash stands for: a newline for
    `n`, and itself for any other.
-/
namespace LispCore.Text

/-- The character as it stands inside a string literal. -/
def escapeChar (c : Char) : List Char :=
  if c = '\\' then ['\\', '\\']
  else if c = '"' then ['\\', '"']
  else if c = '\n' then ['\\', 'n']
  else [c]

/-- A text as a string literal. -/
def escape (s : List Char) : List Char :=
  '"' :: s.flatMap escapeChar ++ ['"']

/-- What a character stands for after a backslash. -/
def unescapeChar (c : Char) : Char :=
  if c = 'n' then '\n' else c

end LispCore.Text

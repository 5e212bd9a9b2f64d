/-
  LispCore — names cut off in messages.

  A message has room for so many bytes of a name, counted in UTF-8.  A longer name
  is cut off there, even in the middle of a character, of which the replacement
  character U+FFFD is left then.

  * `clipped`: a text cut off after a number of bytes.
-/
namespace LispCore.Text

/-- A text cut off after `room` bytes. -/
def clipped (room : Nat) : List Char → List Char
  | [] => []
  | c :: rest =>
    if c.utf8Size ≤ room then c :: clipped (room - c.utf8Size) rest
    else if room = 0 then []
    else ['\uFFFD']

end LispCore.Text

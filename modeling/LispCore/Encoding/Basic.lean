/-
  LispCore — the encodings of files.

  * `Encoding`: the encodings;
  * `Encoding.codecName`: the name under which an encoding reports its faults.
-/
namespace LispCore

/-- The encodings that files can be read in. -/
inductive Encoding where
  | utf8
  /-- UTF-8 with an optional signature. -/
  | utf8Signed
  | ascii
  | latin1
  /-- UTF-16 whose byte order is told by a mark. -/
  | utf16
  | utf16Little
  | utf16Big
  deriving DecidableEq, Repr

/-- The name under which an encoding reports malformed bytes. -/
def Encoding.codecName : Encoding → String
  | utf8 | utf8Signed => "utf-8"
  | ascii => "ascii"
  | latin1 => "latin-1"
  | utf16 => "utf-16"
  | utf16Little => "utf-16-le"
  | utf16Big => "utf-16-be"

end LispCore

/-
  LispCore — bytes that encode no text.

  * `Defect`: what can be wrong with bytes;
  * `Malformed`: a defect together with the bytes it is in and their place;
  * `Malformed.message`: its text.
-/
import LispCore.Encoding.Basic
import LispCore.Text.Quoted

namespace LispCore

/-- What can be wrong with bytes. -/
inductive Defect where
  /-- A byte that begins no character. -/
  | invalidStart
  /-- A character that is not continued as it must be. -/
  | invalidContinuation
  /-- A character that is cut off by the end. -/
  | unexpectedEnd
  /-- A byte outside ASCII. -/
  | notAscii
  /-- A single byte left over. -/
  | truncated
  /-- A low surrogate without a high one before it. -/
  | strayLow
  /-- A high surrogate without a low one after it. -/
  | lonelyHigh
  deriving DecidableEq, Repr

/-- What a message says about a defect. -/
def Defect.message : Defect → String
  | invalidStart => "invalid start byte"
  | invalidContinuation => "invalid continuation byte"
  | unexpectedEnd => "unexpected end of data"
  | notAscii => "ordinal not in range(128)"
  | truncated => "truncated data"
  | strayLow => "illegal encoding"
  | lonelyHigh => "illegal UTF-16 surrogate"

/-- A defect of bytes, with its place. -/
structure Malformed where
  /-- The encoding they were read in. -/
  encoding : Encoding
  /-- How many bytes come before the defect. -/
  position : Nat
  /-- The bytes it is in. -/
  culprit : List UInt8
  defect : Defect
  deriving DecidableEq, Repr

/-- The text of a defect and its place: the byte itself if it is a single one, and
    the range of positions otherwise. -/
def Malformed.message (m : Malformed) : String :=
  let place :=
    match m.culprit with
    | [byte] =>
      "byte 0x" ++ String.ofList (Text.hexDigits 2 byte.toNat) ++ s!" in position {m.position}"
    | bytes => s!"bytes in position {m.position}-{m.position + bytes.length - 1}"
  s!"'{m.encoding.codecName}' codec can't decode {place}: {m.defect.message}"

end LispCore

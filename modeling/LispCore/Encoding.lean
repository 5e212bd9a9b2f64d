/-
  LispCore — encodings of text.

  * `Ascii.decode`, `Latin1.decode`: the text of bytes that are code points;
  * `Encoding.decode`: the text of bytes in any encoding.
-/
import LispCore.Encoding.Utf16
import LispCore.Encoding.Utf8

namespace LispCore

/-- The character whose code point is the byte. -/
def byteChar (b : UInt8) : Char := Char.ofNat b.toNat

/-- The text of bytes of which the first one is at the given position, in ASCII. -/
def Ascii.decodeFrom (position : Nat) : List UInt8 → Except Malformed (List Char)
  | [] => .ok []
  | b :: rest =>
    if b < 0x80 then (decodeFrom (position + 1) rest).map (byteChar b :: ·)
    else .error ⟨.ascii, position, [b], .notAscii⟩

/-- The text of bytes in ASCII. -/
def Ascii.decode (bytes : List UInt8) : Except Malformed (List Char) := decodeFrom 0 bytes

/-- The text of bytes in Latin-1, in which every byte is a character. -/
def Latin1.decode (bytes : List UInt8) : List Char := bytes.map byteChar

/-- The text of bytes in an encoding, or the first fault in them. -/
def Encoding.decode (encoding : Encoding) (bytes : List UInt8) : Except FileFault (List Char) :=
  match encoding with
  | utf8 => (Utf8.decode bytes).mapError .malformed
  | utf8Signed => (Utf8.decodeSigned bytes).mapError .malformed
  | ascii => (Ascii.decode bytes).mapError .malformed
  | latin1 => .ok (Latin1.decode bytes)
  | utf16 => Utf16.decodeMarked bytes
  | utf16Little => (Utf16.decode .little bytes).mapError .malformed
  | utf16Big => (Utf16.decode .big bytes).mapError .malformed

end LispCore

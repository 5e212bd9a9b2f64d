/-
  LispCore — UTF-8.

  * `Utf8.decode`: the text of bytes in UTF-8.  Overlong forms, surrogates and
    code points above U+10FFFF are refused at their second byte, where they first
    differ from well-formed bytes;
  * `Utf8.encode`: the bytes of a text.
-/
import LispCore.Encoding.Fault

namespace LispCore.Utf8

/-- Whether a byte continues a character. -/
def isTail (b : UInt8) : Bool := 0x80 ≤ b && b < 0xC0

/-- Whether `b` can follow the first byte `a` of three: after `E0` it must not be
    so low that two bytes would do, after `ED` not so high that a surrogate
    results. -/
def isSecondOfThree (a b : UInt8) : Bool :=
  isTail b && (a != 0xE0 || 0xA0 ≤ b) && (a != 0xED || b < 0xA0)

/-- Whether `b` can follow the first byte `a` of four: after `F0` it must not be so
    low that three bytes would do, after `F4` not so high that the code point
    exceeds U+10FFFF. -/
def isSecondOfFour (a b : UInt8) : Bool :=
  isTail b && (a != 0xF0 || 0x90 ≤ b) && (a != 0xF4 || b < 0x90)

/-- The payload of a byte that continues a character. -/
def tailBits (b : UInt8) : Nat := b.toNat % 0x40

/-- The character of two bytes. -/
def char2 (a b : UInt8) : Char := Char.ofNat (a.toNat % 0x20 * 0x40 + tailBits b)

/-- The character of three bytes. -/
def char3 (a b c : UInt8) : Char :=
  Char.ofNat ((a.toNat % 0x10 * 0x40 + tailBits b) * 0x40 + tailBits c)

/-- The character of four bytes. -/
def char4 (a b c d : UInt8) : Char :=
  Char.ofNat (((a.toNat % 0x08 * 0x40 + tailBits b) * 0x40 + tailBits c) * 0x40 + tailBits d)

/-- The fault at a position. -/
def fault (position : Nat) (culprit : List UInt8) (defect : Defect) :
    Except Malformed (List Char) :=
  .error ⟨.utf8, position, culprit, defect⟩

/-- The text of bytes of which the first one is at the given position. -/
def decodeFrom (position : Nat) : List UInt8 → Except Malformed (List Char)
  | [] => .ok []
  | a :: rest =>
    if a < 0x80 then (decodeFrom (position + 1) rest).map (Char.ofNat a.toNat :: ·)
    else if a < 0xC2 || 0xF4 < a then fault position [a] .invalidStart
    else
      match rest with
      | [] => fault position [a] .unexpectedEnd
      | b :: rest =>
        if a < 0xE0 then
          if isTail b then (decodeFrom (position + 2) rest).map (char2 a b :: ·)
          else fault position [a] .invalidContinuation
        else if a < 0xF0 then
          if isSecondOfThree a b then
            match rest with
            | [] => fault position [a, b] .unexpectedEnd
            | c :: rest =>
              if isTail c then (decodeFrom (position + 3) rest).map (char3 a b c :: ·)
              else fault position [a, b] .invalidContinuation
          else fault position [a] .invalidContinuation
        else if isSecondOfFour a b then
          match rest with
          | [] => fault position [a, b] .unexpectedEnd
          | c :: rest =>
            if isTail c then
              match rest with
              | [] => fault position [a, b, c] .unexpectedEnd
              | d :: rest =>
                if isTail d then (decodeFrom (position + 4) rest).map (char4 a b c d :: ·)
                else fault position [a, b, c] .invalidContinuation
            else fault position [a, b] .invalidContinuation
        else fault position [a] .invalidContinuation

/-- The text of bytes. -/
def decode (bytes : List UInt8) : Except Malformed (List Char) := decodeFrom 0 bytes

/-- The bytes of a text. -/
def encode (text : List Char) : List UInt8 := text.flatMap String.utf8EncodeChar

/-- The bytes of the signature U+FEFF. -/
def signature : List UInt8 := [0xEF, 0xBB, 0xBF]

/-- The text of bytes that may begin with the signature, which is dropped; positions
    are counted after it.  Less than a whole signature is no text at all. -/
def decodeSigned (bytes : List UInt8) : Except Malformed (List Char) :=
  if bytes.length < 3 && bytes.isPrefixOf signature then .ok []
  else if signature.isPrefixOf bytes then decode (bytes.drop 3)
  else decode bytes

end LispCore.Utf8

/-
  LispCore — UTF-16.

  * `Utf16.Order`: the two orders of the bytes of a unit;
  * `Utf16.decode`: the text of bytes in a given order.  A surrogate that is not
    part of a pair is refused;
  * `Utf16.decodeMarked`: the text of bytes whose order is told by a mark;
  * `Utf16.encode`: the bytes of a text in a given order.
-/
import LispCore.File.Fault

namespace LispCore.Utf16

/-- The orders of the two bytes of a unit. -/
inductive Order where
  /-- The low byte first. -/
  | little
  /-- The high byte first. -/
  | big
  deriving DecidableEq, Repr

/-- The encoding of the order. -/
def Order.encoding : Order → Encoding
  | little => .utf16Little
  | big => .utf16Big

/-- The unit of two bytes. -/
def Order.unit (order : Order) (a b : UInt8) : Nat :=
  match order with
  | little => a.toNat + 256 * b.toNat
  | big => 256 * a.toNat + b.toNat

/-- The two bytes of a unit. -/
def Order.bytes (order : Order) (unit : Nat) : List UInt8 :=
  match order with
  | little => [UInt8.ofNat (unit % 256), UInt8.ofNat (unit / 256)]
  | big => [UInt8.ofNat (unit / 256), UInt8.ofNat (unit % 256)]

/-- Whether a unit is the first half of a pair. -/
def isHigh (unit : Nat) : Bool := 0xD800 ≤ unit && unit < 0xDC00

/-- Whether a unit is the second half of a pair. -/
def isLow (unit : Nat) : Bool := 0xDC00 ≤ unit && unit < 0xE000

/-- The character of a pair. -/
def pairChar (high low : Nat) : Char :=
  Char.ofNat (0x10000 + (high - 0xD800) * 0x400 + (low - 0xDC00))

/-- The fault at a position. -/
def fault (order : Order) (position : Nat) (culprit : List UInt8) (defect : Defect) :
    Except Malformed (List Char) :=
  .error ⟨order.encoding, position, culprit, defect⟩

/-- The text of bytes of which the first one is at the given position. -/
def decodeFrom (order : Order) (position : Nat) : List UInt8 → Except Malformed (List Char)
  | [] => .ok []
  | [a] => fault order position [a] .truncated
  | a :: b :: rest =>
    let unit := order.unit a b
    if isLow unit then fault order position [a, b] .strayLow
    else if isHigh unit then
      match rest with
      | [] => fault order position [a, b] .unexpectedEnd
      | [c] => fault order position [a, b, c] .unexpectedEnd
      | c :: d :: rest =>
        let next := order.unit c d
        if isLow next then
          (decodeFrom order (position + 4) rest).map (pairChar unit next :: ·)
        else fault order position [a, b] .lonelyHigh
    else (decodeFrom order (position + 2) rest).map (Char.ofNat unit :: ·)

/-- The text of bytes in the given order; a mark is a character like any other. -/
def decode (order : Order) (bytes : List UInt8) : Except Malformed (List Char) :=
  decodeFrom order 0 bytes

/-- The text of bytes whose order is told by a mark, which is dropped.  Without a
    mark only the empty text can be told; but bytes that are no text with the low
    byte first are reported as such. -/
def decodeMarked : List UInt8 → Except FileFault (List Char)
  | 0xFF :: 0xFE :: rest => (decodeFrom .little 2 rest).mapError .malformed
  | 0xFE :: 0xFF :: rest => (decodeFrom .big 2 rest).mapError .malformed
  | bytes =>
    match decode .little bytes with
    | .error m => .error (.malformed m)
    | .ok [] => .ok []
    | .ok _ => .error .noByteOrder

/-- The units of a character. -/
def units (c : Char) : List Nat :=
  let n := c.toNat
  if n < 0x10000 then [n]
  else [0xD800 + (n - 0x10000) / 0x400, 0xDC00 + (n - 0x10000) % 0x400]

/-- The bytes of a text in the given order, without a mark. -/
def encode (order : Order) (text : List Char) : List UInt8 :=
  (text.flatMap units).flatMap order.bytes

end LispCore.Utf16

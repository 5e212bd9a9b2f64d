/-
  LispCore — double-precision numbers.

  A double without its sign is named by its rank among the doubles of that
  sign, counted up from zero.  Ranks are what makes rounding, order and the
  64-bit form short: the order of doubles is the order of ranks, the
  neighbours of a double are the neighbours of its rank, and the 64-bit form is
  the sign bit followed by the rank.

  * `Magnitude`: a nonnegative double, infinity included;
  * `Magnitude.units`: its exact value in units of 2⁻¹⁰⁷⁴, the least positive
    double, so that exact arithmetic on doubles is arithmetic on `Nat`;
  * `Double`: a sign and a magnitude, or `nan`;
  * `Double.ofBits`, `Double.toBits`: the 64-bit form;
  * `Double.less`, `Double.atMost`, `Double.equal`: comparison, in which `nan`
    is related to nothing and the two zeros are equal.
-/
namespace LispCore

/-- How many doubles of one sign a binade holds: 2⁵². -/
def ranksPerBinade : Nat := 4503599627370496

/-- The rank of infinity: 2047 binades lie below it. -/
def infinityRank : Nat := 2047 * ranksPerBinade

/-- What the sign bit counts in a 64-bit form: 2⁶³. -/
def signBit : Nat := 9223372036854775808

/-- A nonnegative double, infinity included, by its rank. -/
structure Magnitude where
  /-- How many nonnegative doubles are smaller. -/
  rank : Nat
  rank_le : rank ≤ infinityRank
  deriving DecidableEq

namespace Magnitude

/-- Zero has rank zero. -/
def zero : Magnitude := ⟨0, Nat.zero_le _⟩

/-- Infinity has the greatest rank. -/
def infinity : Magnitude := ⟨infinityRank, Nat.le_refl _⟩

/-- The magnitude of the given rank, or infinity where there is none. -/
def ofRank (r : Nat) : Magnitude := ⟨min r infinityRank, Nat.min_le_right ..⟩

/-- Whether the magnitude is infinity. -/
def isInfinite (m : Magnitude) : Bool := m.rank == infinityRank

/-- Whether the magnitude is zero. -/
def isZero (m : Magnitude) : Bool := m.rank == 0

/-- The exact value of the magnitude of rank `r` in units of 2⁻¹⁰⁷⁴: the lowest
    binade counts in units, and each later one doubles the step. -/
def unitsOfRank (r : Nat) : Nat :=
  if r < ranksPerBinade then r
  else (ranksPerBinade + r % ranksPerBinade) * Nat.pow 2 (r / ranksPerBinade - 1)

/-- The exact value in units of 2⁻¹⁰⁷⁴.  Infinity counts as 2¹⁰²⁴, the value
    that the rank after the greatest finite one would have. -/
def units (m : Magnitude) : Nat := unitsOfRank m.rank

end Magnitude

/-- One in units of 2⁻¹⁰⁷⁴. -/
@[irreducible] def unitsPerOne : Nat := Nat.pow 2 1074

/-- A double-precision number. -/
inductive Double where
  /-- Not a number; all of its 64-bit forms are one value here. -/
  | nan
  /-- The magnitude `size`, negated if `negative`; zero and infinity have signs too. -/
  | signed (negative : Bool) (size : Magnitude)
  deriving DecidableEq

namespace Double

/-- Positive zero. -/
def zero : Double := signed false .zero

/-! ## The 64-bit form -/

/-- The double of a 64-bit form: a sign bit, then the rank.  Ranks above that of
    infinity are forms of `nan`. -/
def ofBits (word : UInt64) : Double :=
  let r := word.toNat % signBit
  if h : r ≤ infinityRank then signed (signBit ≤ word.toNat) ⟨r, h⟩ else nan

/-- A 64-bit form of a double; `nan` is given its quiet form. -/
def toBits : Double → UInt64
  | nan => UInt64.ofNat (infinityRank + ranksPerBinade / 2)
  | signed negative size => UInt64.ofNat ((if negative then signBit else 0) + size.rank)

/-! ## Order -/

/-- The place of a double in the order of doubles: its rank, negated if the sign
    is; both zeros have place 0 and `nan` has none. -/
def place? : Double → Option Int
  | nan => none
  | signed negative size => some (if negative then -(size.rank : Int) else size.rank)

/-- Whether `x` comes before `y`; `nan` comes before nothing and after nothing. -/
def less (x y : Double) : Bool :=
  match x.place?, y.place? with
  | some a, some b => a < b
  | _, _ => false

/-- Whether `x` comes before `y` or has its place. -/
def atMost (x y : Double) : Bool :=
  match x.place?, y.place? with
  | some a, some b => a ≤ b
  | _, _ => false

/-- Whether `x` has the place of `y`; `nan` has none, not even its own. -/
def equal (x y : Double) : Bool :=
  match x.place?, y.place? with
  | some a, some b => a == b
  | _, _ => false

/-- Whether the double is one of the two zeros. -/
def isZero : Double → Bool
  | nan => false
  | signed _ size => size.isZero

/-- The exact value of a finite double in units of 2⁻¹⁰⁷⁴. -/
def units? : Double → Option Int
  | nan => none
  | signed negative size =>
    if size.isInfinite then none
    else some (if negative then -(size.units : Int) else size.units)

/-- Whether the double is exactly the integer `n`. -/
def equalInt (x : Double) (n : Int) : Bool :=
  x.units? == some (n * unitsPerOne)

end Double

end LispCore

/-
  LispCore — structural equality.

  * `Value.equal`: whether two values are equal under a nesting limit.  At each
    pair of elements the depth is checked first, then whether the left one and
    the right one are values, then their variants and contents; lists of
    different lengths are unequal, and the elements of lists of one length are
    compared from left to right up to the first that differ or fail.

  Numbers are compared by exact value, also where one is an integer.  Functions
  are never equal, not even to themselves.
-/
import LispCore.Nesting

namespace LispCore

/-- The variant of one side of a comparison. -/
def Value.comparable (v : Value) : Except Error Variant :=
  v.variant.mapError fun _ => .incomparable v.typeName

mutual

/-- Whether two values that lie inside `depth` lists are equal. -/
def Value.equalAt (limit depth : Nat) (a b : Value) : Except Error Bool :=
  match depthError? .comparing limit depth with
  | some e => .error e
  | none =>
    match a.comparable, b.comparable with
    | .error e, _ => .error e
    | .ok _, .error e => .error e
    | .ok _, .ok _ =>
      match a, b with
      | .nil, .nil => .ok true
      | .number x, .number y => .ok (x.equal y)
      | .number x, .integer n => .ok (x.equalInt n)
      | .integer n, .number x => .ok (x.equalInt n)
      | .integer m, .integer n => .ok (m == n)
      | .string s, .string t => .ok (s == t)
      | .symbol s, .symbol t => .ok (s == t)
      | .boolean s, .boolean t => .ok (s == t)
      | .list xs, .list ys =>
        if xs.length = ys.length then equalAllAt limit (depth + 1) xs ys else .ok false
      | _, _ => .ok false

/-- Whether the values of two sequences, which lie inside `depth` lists, are equal
    one by one. -/
def equalAllAt (limit depth : Nat) : List Value → List Value → Except Error Bool
  | x :: xs, y :: ys => do
    if ← x.equalAt limit depth y then equalAllAt limit depth xs ys else .ok false
  | _, _ => .ok true

end

/-- Whether two values are equal. -/
def Value.equal (limit : Nat) (a b : Value) : Except Error Bool :=
  a.equalAt limit 0 b

end LispCore

/-
  LispCore — positions inside values.

  A position is the path of indices that leads to it, so its length is the
  number of lists it lies inside.

  * `Value.at?`: the value at a position;
  * `Value.Within n`: every position lies inside at most `n` lists;
  * `Value.Nested n`: at most `n` lists lie inside each other, which is the same
    but for an empty list, inside which there is no position;
  * `Value.induction`: a property of values that lists inherit from their
    elements.
-/
import Mathlib.Logic.Basic
import LispCore.Value.Basic

namespace LispCore

/-- The indices that lead to a position, the outermost list's first. -/
abbrev Path := List Nat

/-- What stands at each position. -/
abbrev Layout := Path → Option Value

namespace Value

/-- An element of a list by its index; nothing else has elements. -/
def element? : Value → Nat → Option Value
  | list xs, i => xs[i]?
  | _, _ => none

/-- The value at a position. -/
def at? : Value → Layout
  | v, [] => some v
  | v, i :: p => (v.element? i).bind fun x => x.at? p

theorem at?_cons (v : Value) (i : Nat) (p : Path) :
    v.at? (i :: p) = (v.element? i).bind fun x => x.at? p := rfl

/-- Only lists have positions below their own. -/
theorem at?_cons_eq_some {v w : Value} {i : Nat} {p : Path} (h : v.at? (i :: p) = some w) :
    ∃ xs x, v = list xs ∧ xs[i]? = some x ∧ x.at? p = some w := by
  rw [at?_cons, Option.bind_eq_some_iff] at h
  obtain ⟨x, hx, hw⟩ := h
  cases v with
  | list xs => exact ⟨xs, x, rfl, hx, hw⟩
  | _ => simp [element?] at hx

theorem at?_list_cons {xs : List Value} {i : Nat} {x : Value} (h : xs[i]? = some x) (p : Path) :
    (list xs).at? (i :: p) = x.at? p := by
  rw [at?_cons, element?, h]; rfl

/-- What holds of a value as soon as it holds of all elements holds of every value. -/
@[elab_as_elim]
theorem induction {P : Value → Prop} (atom : ∀ v, (∀ xs, v ≠ list xs) → P v)
    (node : ∀ xs, (∀ x ∈ xs, P x) → P (list xs)) : ∀ v, P v
  | list xs => node xs fun x _ => induction atom node x
  | number _ | integer _ | string _ | symbol _ | boolean _ | nil | function _ | foreign _ =>
    atom _ (by intro xs h; cases h)

/-- The positions of a value are its own and those of its elements. -/
theorem forall_positions {P : Path → Value → Prop} {v : Value} :
    (∀ p w, v.at? p = some w → P p w) ↔
      P [] v ∧ ∀ i x, v.element? i = some x → ∀ p w, x.at? p = some w → P (i :: p) w := by
  constructor
  · intro h
    refine ⟨h [] v rfl, fun i x hx p w hw => h (i :: p) w ?_⟩
    rw [at?_cons, hx]; exact hw
  · rintro ⟨h₀, h⟩ p w hw
    cases p with
    | nil => cases hw; exact h₀
    | cons i p =>
      rw [at?_cons, Option.bind_eq_some_iff] at hw
      obtain ⟨x, hx, hw⟩ := hw
      exact h i x hx p w hw

theorem element?_of_not_list {v : Value} (h : ∀ xs, v ≠ list xs) (i : Nat) :
    v.element? i = none := by
  cases v with
  | list xs => exact absurd rfl (h xs)
  | _ => rfl

/-- Where the index does not matter, the positions of a list are its own and those of
    its members. -/
theorem forall_positions_list {P : Nat → Value → Prop} {xs : List Value} :
    (∀ p w, (list xs).at? p = some w → P p.length w) ↔
      P 0 (list xs) ∧ ∀ x ∈ xs, ∀ p w, x.at? p = some w → P (p.length + 1) w := by
  rw [forall_positions (P := fun p w => P p.length w)]
  refine and_congr_right fun _ => ⟨fun h x hx => ?_, fun h i x hx => ?_⟩
  · obtain ⟨i, hi⟩ := List.mem_iff_getElem?.1 hx
    exact h i x hi
  · exact h x (List.mem_of_getElem? hx)

theorem forall_positions_atom {P : Nat → Value → Prop} {v : Value} (hv : ∀ xs, v ≠ list xs) :
    (∀ p w, v.at? p = some w → P p.length w) ↔ P 0 v := by
  rw [forall_positions (P := fun p w => P p.length w)]
  simp [element?_of_not_list hv]

/-! ## Depth -/

/-- Every position lies inside at most `n` lists. -/
def Within (v : Value) (n : Nat) : Prop := ∀ p w, v.at? p = some w → p.length ≤ n

/-- At most `n` lists lie inside each other. -/
def Nested (v : Value) (n : Nat) : Prop :=
  ∀ p w, v.at? p = some w → (∃ xs, w = list xs) → p.length < n

theorem Within.mono {v : Value} {m n : Nat} (h : v.Within m) (hmn : m ≤ n) : v.Within n :=
  fun p w hw => Nat.le_trans (h p w hw) hmn

theorem within_of_not_list {v : Value} (h : ∀ xs, v ≠ list xs) (n : Nat) : v.Within n :=
  (forall_positions_atom (P := fun k _ => k ≤ n) h).2 (Nat.zero_le n)

theorem nested_of_not_list {v : Value} (h : ∀ xs, v ≠ list xs) (n : Nat) : v.Nested n :=
  (forall_positions_atom (P := fun k w => (∃ xs, w = list xs) → k < n) h).2
    fun ⟨xs, hxs⟩ => absurd hxs (h xs)

theorem within_list {xs : List Value} {n : Nat} :
    (list xs).Within n ↔ ∀ x ∈ xs, 0 < n ∧ x.Within (n - 1) := by
  rw [Within, forall_positions_list (P := fun k _ => k ≤ n), and_iff_right (Nat.zero_le n)]
  refine forall₂_congr fun x _ => ⟨fun h => ?_, fun ⟨hn, h⟩ p w hw => ?_⟩
  · exact ⟨h [] x rfl, fun p w hw => Nat.le_sub_one_of_lt (h p w hw)⟩
  · have := h p w hw
    omega

theorem nested_list {xs : List Value} {n : Nat} :
    (list xs).Nested n ↔ 0 < n ∧ ∀ x ∈ xs, x.Nested (n - 1) := by
  rw [Nested, forall_positions_list (P := fun k w => (∃ xs, w = list xs) → k < n)]
  refine and_congr ⟨fun h => h ⟨xs, rfl⟩, fun h _ => h⟩
    (forall₂_congr fun x _ => forall₄_congr fun p w _ _ => ?_)
  omega

/-- Every position but the outermost one is inside a list. -/
theorem Nested.within {v : Value} {n : Nat} (h : v.Nested n) : v.Within n := by
  induction v using Value.induction generalizing n with
  | atom v hv => exact within_of_not_list hv n
  | node xs ih =>
    obtain ⟨hpos, hxs⟩ := nested_list.1 h
    exact within_list.2 fun x hx => ⟨hpos, ih x hx (hxs x hx)⟩

end Value

end LispCore

/-
  LispCore — integers replaced by their doubles.

  * `IsExact`: an integer is the exact value of a double;
  * `Value.widened`: a value with that double in the place of every such integer; other
    integers stay;
  * `Value.render_widened`, `Value.equal_widened`: the value it is made from has the same
    text, and compares alike;
  * `Unfolding.widened`: the same replacement in a value that may contain itself.
-/
import LispCore.Proofs.Nearest
import LispCore.Proofs.Replacement

namespace LispCore

/-- The integer is the exact value of a double. -/
def IsExact (n : ℤ) : Prop := ∃ x : Double, x.equalInt n = true

namespace IsExact

variable {n : ℤ}

theorem equalInt (h : IsExact n) : (Double.ofInt n).equalInt n = true :=
  let ⟨_, hx⟩ := h
  (Double.ofInt?_of_equalInt hx).2

theorem ofInt? (h : IsExact n) : Double.ofInt? n = some (Double.ofInt n) :=
  let ⟨_, hx⟩ := h
  (Double.ofInt?_of_equalInt hx).1

theorem not_alien (h : IsExact n) : ¬ (Value.integer n).Alien := by
  rw [Value.Alien, h.ofInt?]
  exact Option.some_ne_none _

end IsExact

instance : DecidablePred IsExact := fun n =>
  decidable_of_iff ((Double.ofInt n).equalInt n = true) ⟨fun h => ⟨_, h⟩, IsExact.equalInt⟩

namespace Value

/-- The double that is exactly an integer, in its place; anything else stays. -/
def widenAtom : Value → Value
  | integer n => if IsExact n then number (Double.ofInt n) else integer n
  | v => v

/-- The value with the double that is exactly an integer in the place of every integer
    for which there is one. -/
def widened (v : Value) : Value := v.mapAtoms widenAtom

theorem widenAtom_exact {n : ℤ} (h : IsExact n) :
    (integer n).widenAtom = number (Double.ofInt n) := if_pos h

theorem widenAtom_cases (v : Value) :
    v.widenAtom = v ∨ ∃ n, IsExact n ∧ v = integer n ∧ v.widenAtom = number (Double.ofInt n) := by
  cases v with
  | integer n =>
    by_cases h : IsExact n
    · exact Or.inr ⟨n, h, rfl, widenAtom_exact h⟩
    · exact Or.inl (if_neg h)
  | _ => exact Or.inl rfl

theorem makesAtoms_widenAtom : MakesAtoms widenAtom := by
  intro v hv xs
  rcases v.widenAtom_cases with h | ⟨n, -, -, h⟩ <;> rw [h]
  · exact hv xs
  · exact fun h' => by cases h'

theorem widenAtom_idem (v : Value) : v.widenAtom.widenAtom = v.widenAtom := by
  rcases v.widenAtom_cases with h | ⟨n, -, -, h⟩ <;> rw [h]
  · exact h
  · rfl

/-- An integer and the double that is exactly that integer hold the same. -/
theorem resembles_widenAtom (v : Value) : v.Resembles v.widenAtom := by
  rcases v.widenAtom_cases with h | ⟨n, hn, rfl, h⟩ <;> rw [h]
  · exact .refl v
  · have hvalue := Double.equalInt_iff.1 hn.equalInt
    refine ⟨fun ha => absurd ha (not_or.2 ⟨hn.not_alien, not_false⟩), ?_⟩
    rw [content?_integer hn.not_alien, Value.content?, hvalue]
    rfl

theorem text_widenAtom (mode : Mode) (v : Value) : v.widenAtom.text mode 0 = v.text mode 0 := by
  rcases v.widenAtom_cases with h | ⟨n, hn, rfl, h⟩ <;> rw [h]
  unfold text render
  dsimp only
  rw [widen_of_some hn.ofInt?]

theorem widened_list (xs : List Value) : (list xs).widened = list (xs.map widened) :=
  mapAtoms_list xs

theorem widened_atom {v : Value} (hv : ∀ xs, v ≠ list xs) : v.widened = v.widenAtom :=
  mapAtoms_atom hv

theorem widened_idem (v : Value) : v.widened.widened = v.widened :=
  mapAtoms_idem makesAtoms_widenAtom widenAtom_idem v

/-- **The text does not tell** an integer from the double that is exactly that integer. -/
theorem render_widened (mode : Mode) (limit depth : ℕ) (v : Value) :
    v.widened.render mode limit depth = v.render mode limit depth :=
  render_mapAtoms makesAtoms_widenAtom (fun v _ => text_widenAtom mode v) v depth

/-- **Nor does a comparison.** -/
theorem equal_widened (limit : ℕ) (a b : Value) :
    a.widened.equal limit b.widened = a.equal limit b :=
  equalAt_mapAtoms makesAtoms_widenAtom resembles_widenAtom a 0 b

end Value

namespace Unfolding

/-- The replacement in a value that may contain itself, stage by stage. -/
def widened (a : Unfolding) : Unfolding where
  stage n := (a.stage n).widened
  agree h := (a.agree h).mapAtoms Value.makesAtoms_widenAtom

/-- It is made at every position. -/
theorem at?_widened (a : Unfolding) (p : Path) : a.widened.at? p = (a.at? p).map Value.widened :=
  Value.at?_mapAtoms Value.makesAtoms_widenAtom (a.stage p.length) p

end Unfolding

end LispCore

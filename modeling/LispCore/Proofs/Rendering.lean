/-
  LispCore — one step of rendering.

  What `Value.render` does at one value, guard by guard:

  * `Value.render_of_depthError?`: the depth comes first;
  * `Value.render_list`: a list has the texts of its elements in parentheses;
  * `Value.render_atom`: what is no list has one text, wherever it lies;
  * `Value.text_alien`, `Value.exists_text_atom`: which atoms have a text;
  * `Value.renderAll_cases`: a sequence has texts if all values in it have, and fails with
    the first one that has none otherwise.
-/
import LispCore.Proofs.Content
import LispCore.Value.Printer

namespace LispCore.Value

section
variable {mode : Mode} {limit depth : Nat}

theorem render_of_depthError? {e : Error} (h : depthError? .rendering limit depth = some e)
    (v : Value) : v.render mode limit depth = .error e := by
  unfold render
  rw [h]

/-- Nothing else is looked at where the depth does not allow it. -/
theorem render_eq_of_not_le {mode' : Mode} (h : ¬ (depth ≤ limit ∧ depth ≤ stackLevels))
    (v w : Value) : v.render mode limit depth = w.render mode' limit depth := by
  obtain ⟨e, he, -⟩ := exists_depthError? .rendering h
  rw [render_of_depthError? he, render_of_depthError? he]

theorem render_tooDeep (h : limit < depth) (v : Value) :
    v.render mode limit depth = .error (.tooDeep .rendering limit) :=
  render_of_depthError? (depthError?_of_lt h) v

variable (hd : depth ≤ limit) (hs : depth ≤ stackLevels)
include hd hs

theorem render_list (xs : List Value) :
    (list xs).render mode limit depth =
      renderAll mode limit (depth + 1) xs >>= fun texts =>
        .ok ("(" ++ joinWith " " texts ++ ")") := by
  unfold render
  rw [depthError?_of_le hd hs]

/-- What is no list has one text, wherever it lies. -/
theorem render_atom {v : Value} (hv : ∀ xs, v ≠ list xs) :
    v.render mode limit depth = v.text mode 0 := by
  unfold text render
  rw [depthError?_of_le hd hs, depthError?_of_le (Nat.le_refl 0) (Nat.zero_le _)]
  cases v with
  | list xs => exact absurd rfl (hv xs)
  | _ => rfl

end

theorem text_alien (mode : Mode) {v : Value} (h : v.Alien) :
    v.text mode 0 = .error (.unprintable v.typeName) := by
  unfold text render
  rw [depthError?_of_le (Nat.le_refl 0) (Nat.zero_le _)]
  cases v with
  | integer n => dsimp only; rw [widen_of_none h]
  | foreign _ => rfl
  | _ => exact absurd h not_false

theorem exists_text_atom (mode : Mode) {v : Value} (hv : ∀ xs, v ≠ list xs) (h : ¬ v.Alien) :
    ∃ t, v.text mode 0 = .ok t := by
  unfold text render
  rw [depthError?_of_le (Nat.le_refl 0) (Nat.zero_le _)]
  cases v with
  | integer n =>
    obtain ⟨x, hx⟩ := Option.ne_none_iff_exists'.1 h
    exact ⟨formatNumber x, by dsimp only; rw [widen_of_some hx]⟩
  | string s => cases mode <;> exact ⟨_, rfl⟩
  | list xs => exact absurd rfl (hv xs)
  | foreign _ => exact absurd trivial h
  | _ => exact ⟨_, rfl⟩

/-- **A sequence fails with the first value in it that has no text**, and has texts if there
    is no such value. -/
theorem renderAll_cases (mode : Mode) (limit depth : Nat) : ∀ xs : List Value,
    ((∃ ts, renderAll mode limit depth xs = .ok ts) ∧
      ∀ x ∈ xs, ∃ t, x.render mode limit depth = .ok t) ∨
    ∃ (i : Nat) (x : Value) (e : Error), xs[i]? = some x ∧ x.render mode limit depth = .error e ∧
      renderAll mode limit depth xs = .error e ∧
      ∀ j < i, ∀ y : Value, xs[j]? = some y → ∃ t, y.render mode limit depth = .ok t
  | [] => Or.inl ⟨⟨[], rfl⟩, by simp⟩
  | x :: xs => by
    rw [renderAll]
    cases hx : x.render mode limit depth with
    | error e => exact Or.inr ⟨0, x, e, rfl, hx, rfl, fun j hj => absurd hj (Nat.not_lt_zero j)⟩
    | ok t =>
      rcases renderAll_cases mode limit depth xs with
        ⟨⟨ts, hts⟩, hall⟩ | ⟨i, y, e, hi, hy, he, hbefore⟩
      · exact Or.inl ⟨⟨t :: ts, by rw [hts]; rfl⟩, List.forall_mem_cons.2 ⟨⟨t, hx⟩, hall⟩⟩
      · refine Or.inr ⟨i + 1, y, e, hi, hy, by rw [he]; rfl, fun j hj z hz => ?_⟩
        cases j with
        | zero => cases hz; exact ⟨t, hx⟩
        | succ j => exact hbefore j (Nat.lt_of_succ_lt_succ hj) z hz

end LispCore.Value

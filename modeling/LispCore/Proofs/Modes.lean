/-
  LispCore — readable and display text.

  The mode is handed down to every element, but only strings ask for it.

  * `Value.escaped`: a value with every string replaced by the text of its literal;
    `Value.render_escaped`: its display text is the readable text of the value;
  * `FailAlike`: two results that are both there, or fail with one error;
    `Value.failAlike_render`: the two modes fail alike;
  * `AgreeTo.escaped`: a value without strings is its own replacement;
  * `Unfolding.text_of_mode`: all this of whole values, which may contain themselves.
-/
import LispCore.Proofs.DepthGuard
import LispCore.Proofs.Replacement

namespace LispCore

namespace Value

/-! ## Strings by their literals -/

/-- The string that shows the literal of a string; anything else stays. -/
def escapeAtom : Value → Value
  | string s => string (escapeString s)
  | v => v

/-- The value with the literal of every string in its place. -/
def escaped (v : Value) : Value := v.mapAtoms escapeAtom

theorem escapeAtom_of_ne {v : Value} (h : ∀ s, v ≠ string s) : v.escapeAtom = v := by
  cases v with
  | string s => exact absurd rfl (h s)
  | _ => rfl

theorem makesAtoms_escapeAtom : MakesAtoms escapeAtom := by
  intro v hv xs
  by_cases hs : ∃ s, v = string s
  · obtain ⟨s, rfl⟩ := hs
    exact fun h => by cases h
  · rw [escapeAtom_of_ne fun s h => hs ⟨s, h⟩]
    exact hv xs

/-- An atom that is no string has one text in both modes. -/
theorem text_escapeAtom {v : Value} (hv : ∀ xs, v ≠ list xs) :
    v.escapeAtom.text .display 0 = v.text .readable 0 := by
  cases v with
  | list xs => exact absurd rfl (hv xs)
  | _ => rfl

/-- **The readable text is the display text of the value with literals in the place of its
    strings**, from any depth on. -/
theorem render_escaped (limit depth : ℕ) (v : Value) :
    v.escaped.render .display limit depth = v.render .readable limit depth :=
  render_mapAtoms makesAtoms_escapeAtom (fun _ hv => text_escapeAtom hv) v depth

end Value

/-! ## Failures -/

/-- Both results are there, or both fail with one error. -/
inductive FailAlike {α β : Type} : Except Error α → Except Error β → Prop
  | ok (a : α) (b : β) : FailAlike (.ok a) (.ok b)
  | error (e : Error) : FailAlike (.error e) (.error e)

namespace FailAlike

variable {α β γ δ : Type} {x : Except Error α} {y : Except Error β}

theorem bind {f : α → Except Error γ} {g : β → Except Error δ} (hxy : FailAlike x y)
    (hfg : ∀ a b, FailAlike (f a) (g b)) : FailAlike (x >>= f) (y >>= g) := by
  cases hxy with
  | ok a b => exact hfg a b
  | error e => exact .error e

theorem error_iff (h : FailAlike x y) (e : Error) : x = .error e ↔ y = .error e := by
  cases h <;> simp

end FailAlike

namespace Value

section
variable {limit depth : ℕ} (mode mode' : Mode)

theorem failAlike_renderAll {xs : List Value}
    (h : ∀ x ∈ xs, FailAlike (x.render mode limit depth) (x.render mode' limit depth)) :
    FailAlike (renderAll mode limit depth xs) (renderAll mode' limit depth xs) := by
  induction xs with
  | nil => exact .ok [] []
  | cons x xs ih =>
    rw [renderAll, renderAll]
    refine (h x List.mem_cons_self).bind fun t t' => ?_
    exact (ih fun y hy => h y (List.mem_cons_of_mem x hy)).bind fun ts ts' => .ok _ _

/-- **The two modes fail alike**: on the same values, with the same error. -/
theorem failAlike_render (v : Value) : ∀ depth,
    FailAlike (v.render mode limit depth) (v.render mode' limit depth) := by
  have htooDeep {v : Value} {depth : ℕ} (hd : ¬ (depth ≤ limit ∧ depth ≤ stackLevels)) :
      FailAlike (v.render mode limit depth) (v.render mode' limit depth) := by
    obtain ⟨e, he, -⟩ := exists_depthError? .rendering hd
    rw [render_of_depthError? he, render_of_depthError? he]
    exact .error e
  induction v using Value.induction with
  | atom v hv =>
    intro depth
    by_cases hd : depth ≤ limit ∧ depth ≤ stackLevels
    · rw [render_atom hd.1 hd.2 hv, render_atom hd.1 hd.2 hv]
      by_cases ha : v.Alien
      · rw [text_alien mode ha, text_alien mode' ha]
        exact .error _
      · obtain ⟨t, ht⟩ := exists_text_atom mode hv ha
        obtain ⟨t', ht'⟩ := exists_text_atom mode' hv ha
        rw [ht, ht']
        exact .ok t t'
    · exact htooDeep hd
  | node xs ih =>
    intro depth
    by_cases hd : depth ≤ limit ∧ depth ≤ stackLevels
    · rw [render_list hd.1 hd.2, render_list hd.1 hd.2]
      exact (failAlike_renderAll mode mode' fun x hx => ih x hx (depth + 1)).bind
        fun ts ts' => .ok _ _
    · exact htooDeep hd

end

theorem SameHead.escaped {v : Value} (h : ∀ s, v ≠ string s) : v.SameHead v.escaped := by
  by_cases hv : ∃ xs, v = list xs
  · obtain ⟨xs, rfl⟩ := hv
    rw [Value.escaped, mapAtoms_list]
    exact .lists (by rw [List.length_map])
  · rw [Value.escaped, mapAtoms_atom fun xs hxs => hv ⟨xs, hxs⟩, escapeAtom_of_ne h]
    exact .same v

end Value

namespace Unfolding

/-- The literals in the place of strings in a value that may contain itself. -/
def escaped (a : Unfolding) : Unfolding where
  stage n := (a.stage n).escaped
  agree h := (a.agree h).mapAtoms Value.makesAtoms_escapeAtom

/-- They are put there at every position. -/
theorem at?_escaped (a : Unfolding) (p : Path) : a.escaped.at? p = (a.at? p).map Value.escaped :=
  Value.at?_mapAtoms Value.makesAtoms_escapeAtom (a.stage p.length) p

/-- Without strings nothing is replaced. -/
theorem agreeTo_escaped {a : Unfolding} (h : ∀ p s, a.at? p ≠ some (.string s)) (n : ℕ) :
    AgreeTo n a.at? a.escaped.at? := by
  intro p _
  rw [at?_escaped]
  cases hx : a.at? p with
  | none => exact .none
  | some x => exact .some (.escaped fun s hs => h p s (by rw [hx, hs]))

/-- **The mode touches strings only.**  Readable text is display text with literals in the
    place of the strings; both modes fail on the same values with the same error, and they
    give one text to a value that holds no string. -/
theorem text_of_mode (a : Unfolding) (limit n : ℕ) :
    (a.stage n).text .readable limit = (a.escaped.stage n).text .display limit ∧
    (∀ e, (a.stage n).text .readable limit = .error e ↔
      (a.stage n).text .display limit = .error e) ∧
    (limit ≤ n → (∀ p s, a.at? p ≠ some (.string s)) →
      (a.stage n).text .readable limit = (a.stage n).text .display limit) := by
  have hescaped : (a.stage n).text .readable limit = (a.escaped.stage n).text .display limit :=
    (Value.render_escaped limit 0 (a.stage n)).symm
  refine ⟨hescaped, (Value.failAlike_render .readable .display (a.stage n) 0).error_iff,
    fun hn hnone => ?_⟩
  rw [hescaped]
  exact (Value.render_congr .display
    (agreeFrom_stage (agreeTo_escaped hnone limit) hn hn)).symm

/-- A symbol and a nested list look the same in both modes. -/
theorem text_of_mode_nested : 2 ≤ 2 ∧
    (∀ p s, (ofValue (.list [.symbol "x", .list []])).at? p ≠ some (.string s)) ∧
    (Value.list [.symbol "x", .list []]).text .readable 2 =
      (Value.list [.symbol "x", .list []]).text .display 2 := by
  have hnone : ∀ p s, (ofValue (.list [.symbol "x", .list []])).at? p ≠ some (.string s) := by
    intro p s hp
    refine (Value.forall_positions_list (P := fun _ w => ∀ s, w ≠ .string s)).2
      ⟨by simp, fun x hx => ?_⟩ p _ hp s rfl
    rcases List.mem_pair.1 hx with rfl | rfl
    · exact (Value.forall_positions_atom (P := fun _ w => ∀ s, w ≠ .string s) (by simp)).2 (by simp)
    · exact (Value.forall_positions_list (P := fun _ w => ∀ s, w ≠ .string s)).2 (by simp)
  exact ⟨Nat.le_refl 2, hnone,
    (text_of_mode (ofValue (.list [.symbol "x", .list []])) 2 2).2.2 (Nat.le_refl 2) hnone⟩

end Unfolding

end LispCore

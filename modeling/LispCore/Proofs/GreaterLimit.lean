/-
  LispCore — a greater limit.

  Raising the nesting limit turns errors about the depth into answers, and keeps every
  other outcome.

  * `Finishes`: a result that is no error about the depth;
  * `Extends x y`: `y` is the outcome `x`, unless `x` does not finish;
  * `Value.render_extends`, `Value.equalAt_extends`: the outcome under a greater limit
    extends the one under a limit;
  * `Unfolding.outcome_of_greater_limit`: the same of whole values, which may contain
    themselves.
-/
import LispCore.Proofs.DepthGuard

namespace LispCore

section
variable {α β : Type}

/-- The outcome is not that something nests too deep. -/
def Finishes (x : Except Error α) : Prop := ∀ e, x = .error e → e.kind ≠ .recursion

theorem not_finishes_error {e : Error} (h : e.kind = .recursion) :
    ¬ Finishes (.error e : Except Error α) :=
  fun hx => hx e rfl h

/-- The second outcome is the first one, where that is not that something nests too
    deep. -/
def Extends (x y : Except Error α) : Prop := Finishes x → y = x

namespace Extends

theorem refl (x : Except Error α) : Extends x x := fun _ => rfl

theorem of_error {e : Error} (h : e.kind = .recursion) (y : Except Error α) :
    Extends (.error e) y :=
  fun hx => absurd hx (not_finishes_error h)

/-- A sequence of two walks that finishes has a first part that does. -/
theorem bind {x y : Except Error α} {f g : α → Except Error β} (hxy : Extends x y)
    (hfg : ∀ a, Extends (f a) (g a)) : Extends (x >>= f) (y >>= g) := by
  intro h
  cases x with
  | error e =>
    have hy : y = .error e := hxy fun e' he => h e' (by cases he; rfl)
    rw [hy]
    rfl
  | ok a =>
    have hy : y = .ok a := hxy fun e he => by cases he
    rw [hy]
    exact hfg a h

end Extends

end

namespace Value

section
variable {limit limit' : Nat} (hl : limit ≤ stackLevels) (h : limit ≤ limit')

theorem renderAll_extends {mode : Mode} {depth : Nat} {xs : List Value}
    (hxs : ∀ x ∈ xs, Extends (x.render mode limit depth) (x.render mode limit' depth)) :
    Extends (renderAll mode limit depth xs) (renderAll mode limit' depth xs) := by
  induction xs with
  | nil => exact .refl _
  | cons x xs ih =>
    rw [renderAll, renderAll]
    refine .bind (hxs x List.mem_cons_self) fun t => ?_
    exact .bind (ih fun y hy => hxs y (List.mem_cons_of_mem x hy)) fun texts => .refl _

theorem equalAllAt_extends {depth : Nat} {xs ys : List Value}
    (hxs : ∀ x ∈ xs, ∀ y, Extends (x.equalAt limit depth y) (x.equalAt limit' depth y)) :
    Extends (equalAllAt limit depth xs ys) (equalAllAt limit' depth xs ys) := by
  induction xs generalizing ys with
  | nil => exact .refl _
  | cons x xs ih =>
    cases ys with
    | nil => exact .refl _
    | cons y ys =>
      rw [equalAllAt, equalAllAt]
      refine .bind (hxs x List.mem_cons_self y) fun r => ?_
      cases r with
      | false => exact .refl _
      | true => exact ih fun z hz => hxs z (List.mem_cons_of_mem x hz)

include hl h

/-- **The text under a greater limit** is the one under the limit, or the same error,
    unless that is about the depth. -/
theorem render_extends (mode : Mode) (v : Value) : ∀ depth,
    Extends (v.render mode limit depth) (v.render mode limit' depth) := by
  induction v using Value.induction with
  | atom v hv =>
    intro depth
    rcases Nat.lt_or_ge limit depth with hd | hd
    · rw [render_tooDeep hd]
      exact .of_error rfl _
    · have hs := Nat.le_trans hd hl
      rw [render_atom hd hs hv, render_atom (Nat.le_trans hd h) hs hv]
      exact .refl _
  | node xs ih =>
    intro depth
    rcases Nat.lt_or_ge limit depth with hd | hd
    · rw [render_tooDeep hd]
      exact .of_error rfl _
    · have hs := Nat.le_trans hd hl
      rw [render_list hd hs, render_list (Nat.le_trans hd h) hs]
      exact .bind (renderAll_extends fun x hx => ih x hx (depth + 1)) fun texts => .refl _

/-- **The answer under a greater limit** is the one under the limit, or the same error,
    unless that is about the depth. -/
theorem equalAt_extends (a : Value) : ∀ depth b,
    Extends (a.equalAt limit depth b) (a.equalAt limit' depth b) := by
  have heads {a b : Value} {depth : Nat} (hd : depth ≤ limit)
      (hab : ∀ xs ys, a = list xs → b ≠ list ys) :
      Extends (a.equalAt limit depth b) (a.equalAt limit' depth b) := by
    have hs := Nat.le_trans hd hl
    rw [(Resembles.refl a).equalAt_eq (.refl b) hab hab hd hs (Nat.le_trans hd h) hs]
    exact .refl _
  induction a using Value.induction with
  | atom a ha =>
    intro depth b
    rcases Nat.lt_or_ge limit depth with hd | hd
    · rw [equalAt_tooDeep hd]
      exact .of_error rfl _
    · exact heads hd fun xs _ hxs => absurd hxs (ha xs)
  | node xs ih =>
    intro depth b
    rcases Nat.lt_or_ge limit depth with hd | hd
    · rw [equalAt_tooDeep hd]
      exact .of_error rfl _
    by_cases hb : ∃ ys, b = list ys
    · obtain ⟨ys, rfl⟩ := hb
      have hs := Nat.le_trans hd hl
      rw [equalAt_lists hd hs, equalAt_lists (Nat.le_trans hd h) hs]
      split
      · exact equalAllAt_extends fun x hx => ih x hx (depth + 1)
      · exact .refl _
    · exact heads hd fun _ ys _ hys => hb ⟨ys, hys⟩

end

end Value

namespace Unfolding

/-- **Raising the limit only turns errors about the depth into answers.**  A text, and
    an error of any other class, stays what it is, and so does the answer of a comparison.
    Any stages beyond the limits stand for values that contain themselves. -/
theorem outcome_of_greater_limit {limit limit' : Nat} (hl : limit ≤ stackLevels)
    (h : limit ≤ limit') :
    (∀ (a : Unfolding) (mode : Mode) (m n : Nat), limit ≤ m → limit' ≤ n →
      (∀ e, (a.stage m).text mode limit = .error e → e.kind ≠ .recursion) →
      (a.stage n).text mode limit' = (a.stage m).text mode limit) ∧
    ∀ (a b : Unfolding) (k l m n : Nat), limit ≤ k → limit ≤ l → limit' ≤ m → limit' ≤ n →
      (∀ e, (a.stage k).equal limit (b.stage l) = .error e → e.kind ≠ .recursion) →
      (a.stage m).equal limit' (b.stage n) = (a.stage k).equal limit (b.stage l) := by
  have agree (a : Unfolding) {m n : Nat} (hm : limit ≤ m) (hn : limit' ≤ n) :
      AgreeFrom limit 0 (a.stage m) (a.stage n) :=
    agreeFrom_stage (.refl a.at?) hm (Nat.le_trans h hn)
  refine ⟨fun a mode m n hm hn => ?_, fun a b k l m n hk hl' hm hn => ?_⟩
  · -- the stage that stands for the value under the greater limit does so under both
    rw [Value.text, Value.text, Value.render_congr mode (agree a hm hn)]
    exact Value.render_extends hl h mode (a.stage n) 0
  · rw [Value.equal, Value.equal, Value.equalAt_congr (agree a hk hm) (agree b hl' hn)]
    exact Value.equalAt_extends hl h (a.stage m) 0 (b.stage n)

/-- A list of a foreign object and itself is not printable, and not equal to a list of
    three elements, under a limit of one and of three. -/
theorem outcome_of_limit_three : 1 ≤ stackLevels ∧ 1 ≤ 3 ∧
    (((cycle [ofValue (.foreign "set")] []).stage 1).text .readable 1 =
        .error (.unprintable "set") ∧
      ((cycle [ofValue (.foreign "set")] []).stage 3).text .readable 3 =
        .error (.unprintable "set")) ∧
    (((cycle [ofValue (.foreign "set")] []).stage 1).equal 1
        ((cycle [ofValue .nil, ofValue .nil] []).stage 2) = .ok false ∧
      ((cycle [ofValue (.foreign "set")] []).stage 3).equal 3
        ((cycle [ofValue .nil, ofValue .nil] []).stage 4) = .ok false) := by
  obtain ⟨texts, answers⟩ := @outcome_of_greater_limit 1 3 (by decide) (by decide)
  have ht : ((cycle [ofValue (.foreign "set")] []).stage 1).text .readable 1 =
      .error (.unprintable "set") := rfl
  have he : ((cycle [ofValue (.foreign "set")] []).stage 1).equal 1
      ((cycle [ofValue .nil, ofValue .nil] []).stage 2) = .ok false := rfl
  refine ⟨by decide, by decide, ⟨ht, ?_⟩, he, ?_⟩
  · refine (texts _ .readable 1 3 (by decide) (by decide) fun e h => ?_).trans ht
    cases ht.symm.trans h
    decide
  · refine (answers _ _ 1 2 3 4 (by decide) (by decide) (by decide) (by decide) ?_).trans he
    intro e h
    cases he.symm.trans h

end Unfolding

end LispCore

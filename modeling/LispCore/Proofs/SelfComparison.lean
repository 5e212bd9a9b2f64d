/-
  LispCore — printing agrees with comparing a value with itself.

  The two walks are written separately, each with guards of its own.  Over one value they
  enter the same levels, and where the value holds nothing that is unequal to itself for
  another reason, they stop at the same place for the same reason.

  * `Value.Plain`: neither `nan` nor a function;
  * `Accords`: a text and an equality that holds, or two errors of one cause;
  * `Value.accords_render`: the two walks accord, from any depth on;
  * `Unfolding.text_iff_equal_self`: the same of whole values, which may contain
    themselves.
-/
import LispCore.Proofs.EqualityLaws
import LispCore.Proofs.Rendering

namespace LispCore

/-- A result of rendering and one of comparing with itself, of the same cause. -/
inductive Accords {α : Type} : Except Error α → Except Error Bool → Prop
  /-- There is a text, and the value is equal to itself. -/
  | ok (a : α) : Accords (.ok a) (.ok true)
  /-- It nests too deep for both. -/
  | tooDeep {e e' : Error} : e.kind = .recursion → e'.kind = .recursion →
      Accords (.error e) (.error e')
  /-- The same part of it is no value to both. -/
  | noValue (type : String) : Accords (.error (.unprintable type)) (.error (.incomparable type))

namespace Accords

variable {α β : Type} {x : Except Error α} {y z : Except Error Bool}

theorem bind {f : α → Except Error β} (hxy : Accords x y) (hf : ∀ a, Accords (f a) z) :
    Accords (x >>= f) (y >>= fun r => if r then z else .ok false) := by
  cases hxy with
  | ok a => exact hf a
  | tooDeep h h' => exact .tooDeep h h'
  | noValue type => exact .noValue type

theorem map (hxy : Accords x y) (f : α → β) : Accords (x >>= fun a => .ok (f a)) y := by
  cases hxy with
  | ok a => exact .ok (f a)
  | tooDeep h h' => exact .tooDeep h h'
  | noValue type => exact .noValue type

theorem ok_iff (hxy : Accords x y) : (∃ a, x = .ok a) ↔ y = .ok true := by
  cases hxy <;> simp

theorem recursion_iff (hxy : Accords x y) : (∃ e, x = .error e ∧ e.kind = .recursion) ↔
    ∃ e, y = .error e ∧ e.kind = .recursion := by
  cases hxy with
  | tooDeep h h' => simp [h, h']
  | _ => simp [Error.kind]

theorem type_iff (hxy : Accords x y) : (∃ e, x = .error e ∧ e.kind = .type) ↔
    ∃ e, y = .error e ∧ e.kind = .equality := by
  cases hxy with
  | tooDeep h h' => simp [h, h']
  | _ => simp [Error.kind]

theorem ne_false (hxy : Accords x y) : y ≠ .ok false := by
  cases hxy <;> simp

end Accords

namespace Value

/-- Neither `nan` nor a function, which are unequal to themselves. -/
def Plain (v : Value) : Prop := v ≠ number .nan ∧ ∀ f, v ≠ function f

theorem SameHead.plain {x y : Value} (h : x.SameHead y) (hx : x.Plain) : y.Plain := by
  rcases h with _ | _
  · exact hx
  · exact ⟨by simp, by simp⟩

variable {mode : Mode} {limit depth : Nat}

theorem accords_of_tooDeep (h : ¬ (depth ≤ limit ∧ depth ≤ stackLevels)) (v : Value) :
    Accords (v.render mode limit depth) (v.equalAt limit depth v) := by
  obtain ⟨e, he, hk⟩ := exists_depthError? .rendering h
  obtain ⟨e', he', hk'⟩ := exists_depthError? .comparing h
  rw [render_of_depthError? he, equalAt_of_depthError? he']
  exact .tooDeep hk hk'

theorem accords_atom (hd : depth ≤ limit) (hs : depth ≤ stackLevels) {v : Value}
    (hv : ∀ xs, v ≠ list xs) (hp : v.Plain) :
    Accords (v.render mode limit depth) (v.equalAt limit depth v) := by
  rw [render_atom hd hs hv]
  by_cases ha : v.Alien
  · rw [text_alien mode ha, equalAt_alien_left hd hs ha]
    exact .noValue _
  · obtain ⟨t, ht⟩ := exists_text_atom mode hv ha
    obtain ⟨r, he, hr⟩ := equalAt_atoms hd hs ha ha fun xs _ h => absurd h (hv xs)
    have hself : r = true := hr.2 ((selfLike_atom_iff hv).2 ⟨hp.1, hp.2, ha⟩)
    rw [ht, he, hself]
    exact .ok t

theorem accords_renderAll {xs : List Value}
    (h : ∀ x ∈ xs, Accords (x.render mode limit depth) (x.equalAt limit depth x)) :
    Accords (renderAll mode limit depth xs) (equalAllAt limit depth xs xs) := by
  induction xs with
  | nil => exact .ok []
  | cons x xs ih =>
    have hxs := ih fun y hy => h y (List.mem_cons_of_mem x hy)
    rw [renderAll, equalAllAt]
    exact (h x List.mem_cons_self).bind fun t => hxs.map _

/-- **Rendering and comparing with itself** come to the same, if nothing within the limit
    is `nan` or a function. -/
theorem accords_render (v : Value) : ∀ depth,
    (∀ p x, v.at? p = some x → depth + p.length ≤ limit → x.Plain) →
    Accords (v.render mode limit depth) (v.equalAt limit depth v) := by
  induction v using Value.induction with
  | atom v hv =>
    intro depth h
    by_cases hd : depth ≤ limit ∧ depth ≤ stackLevels
    · exact accords_atom hd.1 hd.2 hv (h [] v rfl hd.1)
    · exact accords_of_tooDeep hd v
  | node xs ih =>
    intro depth h
    by_cases hd : depth ≤ limit ∧ depth ≤ stackLevels
    · -- a list has as many elements as itself, so that the walk goes on below
      rw [render_list hd.1 hd.2, equalAt_lists hd.1 hd.2, if_pos rfl]
      refine (accords_renderAll fun x hx => ih x hx (depth + 1) ?_).map _
      intro p y hy hlen
      obtain ⟨i, hi⟩ := List.mem_iff_getElem?.1 hx
      refine h (i :: p) y (by rwa [at?_list_cons hi]) ?_
      rw [List.length_cons]
      omega
    · exact accords_of_tooDeep hd (list xs)

end Value

/-- **Printing agrees with comparing a value with itself**, where the value holds no `nan`
    and no function: there is a text just if the value is equal to itself, and errors of
    one class answer to errors of the other.  A stage beyond the limit stands for a value
    that contains itself. -/
theorem Unfolding.text_iff_equal_self {limit n : Nat} (hn : limit ≤ n) (a : Unfolding)
    (ha : ∀ p x, a.at? p = some x → x ≠ .number .nan ∧ ∀ f, x ≠ .function f) (mode : Mode) :
    ((∃ t, (a.stage n).text mode limit = .ok t) ↔
      (a.stage n).equal limit (a.stage n) = .ok true) ∧
    ((∃ e, (a.stage n).text mode limit = .error e ∧ e.kind = .recursion) ↔
      ∃ e, (a.stage n).equal limit (a.stage n) = .error e ∧ e.kind = .recursion) ∧
    ((∃ e, (a.stage n).text mode limit = .error e ∧ e.kind = .type) ↔
      ∃ e, (a.stage n).equal limit (a.stage n) = .error e ∧ e.kind = .equality) ∧
    (a.stage n).equal limit (a.stage n) ≠ .ok false := by
  have h : Accords ((a.stage n).text mode limit) ((a.stage n).equal limit (a.stage n)) := by
    refine Value.accords_render (a.stage n) 0 fun p x hx hp => ?_
    obtain ⟨y, hy, hxy⟩ := (a.agree_stage n).symm.exists_sameHead (by omega) hx
    exact hxy.symm.plain (ha p y hy)
  exact ⟨h.ok_iff, h.recursion_iff, h.type_iff, h.ne_false⟩

/-- An integer that is too large for a number, in a list: it can neither be printed nor
    compared. -/
theorem Unfolding.text_iff_equal_self_oversized : 1 ≤ 1 ∧
    (∀ p x, (ofValue (.list [.nil, .integer (2 ^ 1024)])).at? p = some x →
      x ≠ .number .nan ∧ ∀ f, x ≠ .function f) ∧
    (∃ e, (Value.list [.nil, .integer (2 ^ 1024)]).text .display 1 = .error e ∧
      e.kind = .type) ∧
    ∃ e, (Value.list [.nil, .integer (2 ^ 1024)]).equal 1
      (.list [.nil, .integer (2 ^ 1024)]) = .error e ∧ e.kind = .equality := by
  have hatom {v : Value} (hv : ∀ xs, v ≠ .list xs) (hp : v.Plain) (p : Path) (x : Value)
      (hx : v.at? p = some x) : x.Plain :=
    (Value.forall_positions_atom (P := fun _ x => x.Plain) hv).2 hp p x hx
  have hplain : ∀ p x, (ofValue (.list [.nil, .integer (2 ^ 1024)])).at? p = some x →
      x ≠ .number .nan ∧ ∀ f, x ≠ .function f := by
    refine (Value.forall_positions_list (P := fun _ x => x.Plain)).2
      ⟨⟨Value.noConfusion, fun _ => Value.noConfusion⟩, fun x hx => ?_⟩
    rcases List.mem_pair.1 hx with rfl | rfl <;>
      exact hatom (fun _ => Value.noConfusion) ⟨Value.noConfusion, fun _ => Value.noConfusion⟩
  have htext : (Value.list [.nil, .integer (2 ^ 1024)]).text .display 1 =
      .error (.unprintable "int") := by decide +kernel
  exact ⟨Nat.le_refl 1, hplain, ⟨_, htext, rfl⟩,
    (text_iff_equal_self (Nat.le_refl 1) _ hplain .display).2.2.1.1 ⟨_, htext, rfl⟩⟩

end LispCore

/-
  LispCore — how much depth remains.

  Rendering asks how far the limit is above the depth, and for neither of them alone.  So a
  list is printed as the sequence of its elements is, one level deeper.

  * `Error.deepened`: an error with a greater limit in it;
  * `Value.render_add`: with the limit and the depth greater by the same number, the text is
    the same, and so is the error but for the limit in it;
  * `Value.text_list`: the text of a list from that of the sequence of its elements;
  * `Encloses`: one outcome is another one in parentheses;
  * `Unfolding.text_list_encloses`: this of lists whose elements may contain themselves, and of
    `pr-str`.
-/
import LispCore.Proofs.Call
import LispCore.Proofs.DepthGuard
import LispCore.Proofs.Guarded

namespace LispCore

/-! ## Errors of a walk that starts deeper -/

/-- The error as it is under a limit greater by `k`. -/
def Error.deepened (k : ℕ) : Error → Error
  | .tooDeep walk limit => .tooDeep walk (limit + k)
  | e => e

theorem Error.kind_deepened (k : ℕ) (e : Error) : (e.deepened k).kind = e.kind := by
  cases e <;> rfl

/-- Only errors about the depth have a limit in them. -/
theorem Error.deepened_eq_iff {k : ℕ} {e e' : Error} (h : e.kind ≠ .recursion) :
    e'.deepened k = e ↔ e' = e := by
  cases e' with
  | tooDeep walk limit =>
    constructor <;> rintro rfl <;> exact absurd rfl h
  | _ => exact Iff.rfl

namespace Value

section
variable {mode : Mode} {limit depth k : ℕ}

/-- An atom fails only for being no value. -/
theorem mapError_deepened_atom {v : Value} (hv : ∀ xs, v ≠ list xs) (mode : Mode) (k : ℕ) :
    (v.text mode 0).mapError (.deepened k) = v.text mode 0 := by
  by_cases ha : v.Alien
  · rw [text_alien mode ha]
    rfl
  · obtain ⟨t, ht⟩ := exists_text_atom mode hv ha
    rw [ht]
    rfl

theorem renderAll_add {xs : List Value}
    (h : ∀ x ∈ xs, x.render mode (limit + k) (depth + k) =
      (x.render mode limit depth).mapError (.deepened k)) :
    renderAll mode (limit + k) (depth + k) xs =
      (renderAll mode limit depth xs).mapError (.deepened k) := by
  induction xs with
  | nil => rfl
  | cons x xs ih =>
    rw [renderAll, renderAll, h x List.mem_cons_self,
      ih fun y hy => h y (List.mem_cons_of_mem x hy), mapError_bind]
    congr 1
    funext t
    rw [mapError_bind]
    rfl

/-- **Only the depth that remains counts**: with the limit and the depth greater by the same
    number, there is the same text, or the same error but for the limit in it. -/
theorem render_add (mode : Mode) (hl : limit + k ≤ stackLevels) (v : Value) : ∀ depth,
    v.render mode (limit + k) (depth + k) = (v.render mode limit depth).mapError (.deepened k) := by
  have htooDeep {v : Value} {depth : ℕ} (hd : limit < depth) : v.render mode (limit + k)
      (depth + k) = (v.render mode limit depth).mapError (.deepened k) := by
    rw [render_tooDeep hd, render_tooDeep (Nat.add_lt_add_right hd k)]
    rfl
  induction v using Value.induction with
  | atom v hv =>
    intro depth
    rcases Nat.lt_or_ge limit depth with hd | hd
    · exact htooDeep hd
    · rw [render_atom (by omega) (by omega) hv, render_atom hd (by omega) hv,
        mapError_deepened_atom hv]
  | node xs ih =>
    intro depth
    rcases Nat.lt_or_ge limit depth with hd | hd
    · exact htooDeep hd
    · rw [render_list (by omega) (by omega), render_list hd (by omega), Nat.add_right_comm,
        renderAll_add fun x hx => ih x hx (depth + 1), mapError_bind]
      rfl

end

/-- **A list is printed as the sequence of its elements**, in parentheses and under a limit
    greater by one. -/
theorem text_list (mode : Mode) {limit : ℕ} (hl : limit < stackLevels) (xs : List Value) :
    (list xs).text mode (limit + 1) =
      ((renderSeq mode limit " " xs).map fun t => "(" ++ t ++ ")").mapError (.deepened 1) := by
  rw [Value.text, render_list (Nat.zero_le _) (Nat.zero_le _),
    renderAll_add fun x _ => render_add mode hl x 0, renderSeq]
  cases renderAll mode limit 0 xs <;> rfl

end Value

theorem renderSeq_congr {mode : Mode} {limit : ℕ} (separator : String) {xs ys : List Value}
    (h : List.Forall₂ (AgreeFrom limit 0) xs ys) :
    renderSeq mode limit separator xs = renderSeq mode limit separator ys := by
  rw [renderSeq, renderSeq, Value.renderAll_congr h fun _ _ _ hxy => Value.render_congr mode hxy]

/-! ## Outcomes in parentheses -/

/-- The first outcome is the second one in parentheses: the text is, or else both are errors
    of one class, and the same one if it is about a variant. -/
structure Encloses (x y : Except Error String) : Prop where
  ok_iff (t : String) : x = .ok ("(" ++ t ++ ")") ↔ y = .ok t
  kind_iff (kind : Kind) :
    (∃ e, x = .error e ∧ e.kind = kind) ↔ ∃ e, y = .error e ∧ e.kind = kind
  error_iff (e : Error) : e.kind = .type → (x = .error e ↔ y = .error e)

theorem encloses_deepened (k : ℕ) (y : Except Error String) :
    Encloses ((y.map fun t => "(" ++ t ++ ")").mapError (.deepened k)) y := by
  cases y with
  | ok t =>
    have hinj (t' : String) : "(" ++ t ++ ")" = "(" ++ t' ++ ")" ↔ t = t' := by
      rw [String.append_left_inj, String.append_right_inj]
    exact ⟨by simp [Except.map, Except.mapError, hinj], by simp [Except.map, Except.mapError],
      by simp [Except.map, Except.mapError]⟩
  | error e =>
    refine ⟨by simp [Except.map, Except.mapError],
      by simp [Except.map, Except.mapError, Error.kind_deepened], fun e' he' => ?_⟩
    have hne : e'.kind ≠ .recursion := by rw [he']; decide
    simp [Except.map, Except.mapError, Error.deepened_eq_iff hne]

namespace Unfolding

/-- Stages beyond the limit print alike, as the elements of a sequence too. -/
theorem renderSeq_stages (mode : Mode) (separator : String) {limit m n : ℕ} (hm : limit ≤ m)
    (hn : limit ≤ n) (elements : List Unfolding) :
    renderSeq mode limit separator (elements.map fun a => a.stage m) =
      renderSeq mode limit separator (elements.map fun a => a.stage n) := by
  refine renderSeq_congr separator ?_
  rw [List.forall₂_map_left_iff, List.forall₂_map_right_iff, List.forall₂_same]
  exact fun a _ => agreeFrom_stage (.refl a.at?) hm hn

/-- **Printing a list agrees with printing its elements as a sequence**, one level of depth
    apart: its text is theirs in parentheses, and it fails just if they fail, with an error of
    the same class, and with the same one if that is about a variant.  So `pr-str` answers, of
    what `list` makes of its arguments, what it answers of the arguments themselves, in
    parentheses.  Any stages beyond the limit stand for elements that contain themselves. -/
theorem text_list_encloses {limit m n : ℕ} (hl : limit < stackLevels) (hm : limit ≤ m)
    (hn : limit ≤ n) (elements : List Unfolding) :
    (∀ mode, Encloses
      ((Value.list (elements.map fun a => a.stage m)).text mode (limit + 1))
      (renderSeq mode limit " " (elements.map fun a => a.stage n))) ∧
    ∀ world world' : World, world.depthLimit = limit → world'.depthLimit = limit + 1 →
      ∃ v outcome outcome', Encloses outcome outcome' ∧
        world'.callByName "list" (elements.map fun a => a.stage m) = .quiet (.ok v) ∧
        world'.callByName "pr-str" [v] = .quiet (outcome.map .string) ∧
        world.callByName "pr-str" (elements.map fun a => a.stage n) =
          .quiet (outcome'.map .string) := by
  have hencloses (mode : Mode) : Encloses
      ((Value.list (elements.map fun a => a.stage m)).text mode (limit + 1))
      (renderSeq mode limit " " (elements.map fun a => a.stage n)) := by
    rw [Value.text_list mode hl, renderSeq_stages mode " " hm hn elements]
    exact encloses_deepened 1 _
  refine ⟨hencloses, fun world world' hw hw' => ⟨_, _, _, hencloses .readable,
    world'.callByName_list _, ?_, ?_⟩⟩
  · rw [world'.callByName_prStr_eq, hw']
  · rw [world.callByName_prStr_seq, hw]

/-- A list of a foreign object and itself: under a limit of one it fails at the object as an
    argument, and so does the list of it under a limit of two. -/
theorem text_list_encloses_cycle :
    (1 < stackLevels ∧ 1 ≤ 1 ∧ 1 ≤ 2 ∧
      (World.initial ⟨some "1", none⟩ .empty .absent).depthLimit = 1 ∧
      (World.initial ⟨some "2", none⟩ .empty .absent).depthLimit = 2) ∧
    renderSeq .display 1 " " [(cycle [ofValue (.foreign "set")] []).stage 2] =
      .error (.unprintable "set") ∧
    (Value.list [(cycle [ofValue (.foreign "set")] []).stage 1]).text .display 2 =
      .error (.unprintable "set") ∧
    ∃ v outcome outcome', Encloses outcome outcome' ∧
      (World.initial ⟨some "2", none⟩ .empty .absent).callByName "list"
        [(cycle [ofValue (.foreign "set")] []).stage 1] = .quiet (.ok v) ∧
      (World.initial ⟨some "2", none⟩ .empty .absent).callByName "pr-str" [v] =
        .quiet (outcome.map .string) ∧
      (World.initial ⟨some "1", none⟩ .empty .absent).callByName "pr-str"
        [(cycle [ofValue (.foreign "set")] []).stage 2] = .quiet (outcome'.map .string) := by
  have hone : (World.initial ⟨some "1", none⟩ .empty .absent).depthLimit = 1 := by
    decide +kernel
  have htwo : (World.initial ⟨some "2", none⟩ .empty .absent).depthLimit = 2 := by
    decide +kernel
  have hseq : renderSeq .display 1 " " [(cycle [ofValue (.foreign "set")] []).stage 2] =
      .error (.unprintable "set") := rfl
  have hm : 1 ≤ 1 := by decide
  have hn : 1 ≤ 2 := by decide
  obtain ⟨texts, calls⟩ :=
    text_list_encloses (by decide) hm hn [cycle [ofValue (.foreign "set")] []]
  exact ⟨⟨by decide, hm, hn, hone, htwo⟩, hseq,
    ((texts .display).error_iff _ rfl).2 hseq, calls _ _ hone htwo⟩

end Unfolding

end LispCore

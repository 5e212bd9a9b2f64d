/-
  LispCore — nothing below the limit is looked at.

  Rendering and comparing ask for the depth before anything else about an element, so
  what lies inside more lists than the limit allows is counted, but never looked at.

  * `AgreeFrom limit depth`: values inside `depth` lists that are the same as far down as
    the limit reaches;
  * `Value.render_congr`, `Value.equalAt_congr`: such values have one text, and compare
    alike;
  * `Value.render_unroll`: a list that contains itself has no text;
  * `Unfolding.depth_guard`: the same of whole values, which may contain themselves.
-/
import LispCore.Proofs.Rendering
import LispCore.Proofs.Unfolding

namespace LispCore

open Value

/-! ## Values that agree -/

namespace AgreeTo

variable {n : Nat} {a b : Value}

theorem head (h : AgreeTo n a.at? b.at?) : a.SameHead b := by
  obtain ⟨y, hy, hab⟩ := h.exists_sameHead (p := []) (Nat.zero_le n) rfl
  cases hy
  exact hab

theorem elements {xs ys : List Value} (h : AgreeTo (n + 1) (list xs).at? (list ys).at?) :
    List.Forall₂ (fun x y => AgreeTo n x.at? y.at?) xs ys := by
  have hlen : xs.length = ys.length := by
    obtain ⟨ys', hys, hlen⟩ := h.head.length_eq
    cases hys
    exact hlen
  refine List.forall₂_iff_get.2 ⟨hlen, fun i hi hj p hp => ?_⟩
  have := h (i :: p) (Nat.succ_le_succ hp)
  rwa [at?_list_cons (List.getElem?_eq_getElem hi),
    at?_list_cons (List.getElem?_eq_getElem hj)] at this

end AgreeTo

/-- Two values that lie inside `depth` lists are the same as far down as the limit
    reaches; anything will do where it does not reach at all. -/
def AgreeFrom (limit depth : Nat) (a b : Value) : Prop :=
  depth ≤ limit → AgreeTo (limit - depth) a.at? b.at?

theorem AgreeFrom.elements {limit depth : Nat} {xs ys : List Value} (hd : depth ≤ limit)
    (h : AgreeFrom limit depth (list xs) (list ys)) :
    List.Forall₂ (AgreeFrom limit (depth + 1)) xs ys := by
  rcases Nat.lt_or_ge depth limit with hlt | hge
  · have hsub : limit - depth = limit - (depth + 1) + 1 := by omega
    have := h hd
    rw [hsub] at this
    exact this.elements.imp fun _ _ hxy _ => hxy
  · -- the elements lie below the limit already
    obtain ⟨ys', hys, hlen⟩ := (h hd).head.length_eq
    cases hys
    refine List.forall₂_iff_get.2 ⟨hlen, fun i hi hj hle => ?_⟩
    omega

namespace Value

/-! ## Rendering -/

section
variable {mode : Mode} {limit depth : Nat} {xs ys : List Value}

theorem render_list_congr
    (h : renderAll mode limit (depth + 1) xs = renderAll mode limit (depth + 1) ys) :
    (list xs).render mode limit depth = (list ys).render mode limit depth := by
  unfold render
  dsimp only
  rw [h]

theorem renderAll_congr {R : Value → Value → Prop} (hxy : List.Forall₂ R xs ys)
    (h : ∀ x ∈ xs, ∀ y, R x y → x.render mode limit depth = y.render mode limit depth) :
    renderAll mode limit depth xs = renderAll mode limit depth ys := by
  induction hxy with
  | nil => rfl
  | @cons x y xs ys hr _ ih =>
    rw [renderAll, renderAll, h x List.mem_cons_self y hr,
      ih fun z hz => h z (List.mem_cons_of_mem x hz)]

/-- **Values that are the same down to the limit have one text**, or fail alike. -/
theorem render_congr (mode : Mode) {a : Value} : ∀ {limit depth : Nat} {b : Value},
    AgreeFrom limit depth a b → a.render mode limit depth = b.render mode limit depth := by
  induction a using Value.induction with
  | atom a hatom =>
    intro limit depth b h
    rcases Nat.lt_or_ge limit depth with hd | hd
    · rw [render_tooDeep hd, render_tooDeep hd]
    · rcases (h hd).head with _ | _
      · rfl
      · exact absurd rfl (hatom _)
  | node xs ih =>
    intro limit depth b h
    rcases Nat.lt_or_ge limit depth with hd | hd
    · rw [render_tooDeep hd, render_tooDeep hd]
    · obtain ⟨ys, rfl, -⟩ := (h hd).head.length_eq
      exact render_list_congr (renderAll_congr (h.elements hd) fun x hx _ => ih x hx)

end

/-! ## Comparing -/

section
variable {limit depth : Nat} {a a' b b' : Value} {xs xs' ys ys' : List Value}

theorem equalAt_lists_congr (hx : xs.length = xs'.length) (hy : ys.length = ys'.length)
    (h : equalAllAt limit (depth + 1) xs ys = equalAllAt limit (depth + 1) xs' ys') :
    (list xs).equalAt limit depth (list ys) = (list xs').equalAt limit depth (list ys') := by
  unfold equalAt
  dsimp only
  rw [h, hx, hy]
  rfl

/-- Where the two sides are not both lists, their heads settle the answer. -/
theorem equalAt_heads_congr (ha : a.SameHead a') (hb : b.SameHead b')
    (hab : ∀ xs ys, a = list xs → b ≠ list ys) :
    a.equalAt limit depth b = a'.equalAt limit depth b' := by
  rcases ha with _ | _ <;> rcases hb with _ | _
  · rfl
  · unfold equalAt
    cases a with
    | list xs => exact absurd rfl (hab xs _ rfl)
    | _ => rfl
  · unfold equalAt
    cases b with
    | list ys => exact absurd rfl (hab _ ys rfl)
    | _ => rfl
  · exact absurd rfl (hab _ _ rfl)

theorem equalAllAt_congr {R : Value → Value → Prop} (hx : List.Forall₂ R xs xs')
    (hy : List.Forall₂ R ys ys')
    (h : ∀ x ∈ xs, ∀ x' y y', R x x' → R y y' →
      x.equalAt limit depth y = x'.equalAt limit depth y') :
    equalAllAt limit depth xs ys = equalAllAt limit depth xs' ys' := by
  induction hx generalizing ys ys' with
  | nil => rfl
  | @cons x x' xs xs' hxx _ ih =>
    cases hy with
    | nil => rfl
    | @cons y y' ys ys' hyy hys =>
      rw [equalAllAt, equalAllAt, h x List.mem_cons_self x' y y' hxx hyy,
        ih hys fun z hz => h z (List.mem_cons_of_mem x hz)]

end

/-- **Values that are the same down to the limit compare alike**, on either side. -/
theorem equalAt_congr {a : Value} : ∀ {limit depth : Nat} {a' b b' : Value},
    AgreeFrom limit depth a a' → AgreeFrom limit depth b b' →
    a.equalAt limit depth b = a'.equalAt limit depth b' := by
  induction a using Value.induction with
  | atom a hatom =>
    intro limit depth a' b b' ha hb
    rcases Nat.lt_or_ge limit depth with hd | hd
    · rw [equalAt_tooDeep hd, equalAt_tooDeep hd]
    · exact equalAt_heads_congr (ha hd).head (hb hd).head fun xs _ h => absurd h (hatom xs)
  | node xs ih =>
    intro limit depth a' b b' ha hb
    rcases Nat.lt_or_ge limit depth with hd | hd
    · rw [equalAt_tooDeep hd, equalAt_tooDeep hd]
    by_cases hys : ∃ ys, b = list ys
    · obtain ⟨ys, rfl⟩ := hys
      obtain ⟨xs', rfl, hx⟩ := (ha hd).head.length_eq
      obtain ⟨ys', rfl, hy⟩ := (hb hd).head.length_eq
      exact equalAt_lists_congr hx hy <| equalAllAt_congr (ha.elements hd) (hb.elements hd)
        fun x hx x' y y' hxx hyy => ih x hx hxx hyy
    · exact equalAt_heads_congr (ha hd).head (hb hd).head fun _ ys _ h => hys ⟨ys, h⟩

/-! ## Lists that contain themselves -/

theorem renderAll_of_mem_error {mode : Mode} {limit depth : Nat} {xs : List Value} {x : Value}
    (hx : x ∈ xs) (h : ∃ e, x.render mode limit depth = .error e) :
    ∃ e, renderAll mode limit depth xs = .error e := by
  rcases renderAll_cases mode limit depth xs with ⟨-, hall⟩ | ⟨_, _, e, -, -, he, -⟩
  · obtain ⟨e, he⟩ := h
    obtain ⟨t, ht⟩ := hall x hx
    rw [he] at ht
    cases ht
  · exact ⟨e, he⟩

/-- **Where a list contains itself beyond the limit, rendering fails**: if not at an
    element before, then at the innermost stage that is entered. -/
theorem render_unroll (mode : Mode) (limit : Nat) (before after : List Value) :
    ∀ {k depth : Nat}, limit < depth + k →
      ∃ e, (unroll before after k).render mode limit depth = .error e
  | 0, depth, h => ⟨_, render_tooDeep h _⟩
  | k + 1, depth, h => by
    have hmem : unroll before after k ∈ before ++ unroll before after k :: after := by simp
    have hinner : ∃ e, (unroll before after k).render mode limit (depth + 1) = .error e :=
      render_unroll mode limit before after (by omega)
    obtain ⟨e, he⟩ := renderAll_of_mem_error hmem hinner
    rw [unroll]
    unfold render
    cases depthError? .rendering limit depth with
    | some e => exact ⟨e, rfl⟩
    | none => exact ⟨e, by dsimp only; rw [he]; rfl⟩

end Value

/-! ## Whole values -/

theorem Value.SameHead.trans {x y z : Value} (h : x.SameHead y) (h' : y.SameHead z) :
    x.SameHead z := by
  rcases h with _ | h
  · exact h'
  · obtain ⟨zs, rfl, hlen⟩ := h'.length_eq
    exact .lists (h.trans hlen)

theorem AgreeTo.trans {n : Nat} {a b c : Layout} (h : AgreeTo n a b) (h' : AgreeTo n b c) :
    AgreeTo n a c := by
  intro p hp
  have hab := h p hp
  have hbc := h' p hp
  generalize a p = x, b p = y, c p = z at hab hbc
  cases hab with
  | none => exact hbc
  | some hxy =>
    cases hbc with
    | some hyz => exact .some (hxy.trans hyz)

namespace Unfolding

/-- Stages beyond the limit of values that are the same down to it. -/
theorem agreeFrom_stage {limit m n : Nat} {a b : Unfolding} (h : AgreeTo limit a.at? b.at?)
    (hm : limit ≤ m) (hn : limit ≤ n) : AgreeFrom limit 0 (a.stage m) (b.stage n) :=
  fun _ => (((a.agree_stage m).mono hm).symm.trans h).trans ((b.agree_stage n).mono hn)

/-- **What lies inside more lists than the limit is not looked at.**  Replacing it, one
    for one, by anything else keeps every text and every answer, whichever stages stand for
    values that contain themselves.  In particular all stages of such a list beyond the
    limit are alike, and it has no text. -/
theorem depth_guard (limit : Nat) :
    (∀ (a a' : Unfolding) (m n : Nat), AgreeTo limit a.at? a'.at? → limit ≤ m → limit ≤ n →
      ∀ mode, (a.stage m).text mode limit = (a'.stage n).text mode limit) ∧
    (∀ (a a' b b' : Unfolding) (k l m n : Nat), AgreeTo limit a.at? a'.at? →
      AgreeTo limit b.at? b'.at? → limit ≤ k → limit ≤ l → limit ≤ m → limit ≤ n →
      (a.stage k).equal limit (b.stage l) = (a'.stage m).equal limit (b'.stage n)) ∧
    ∀ (before after : List Value) (m n : Nat), limit < m → limit < n →
      (∀ mode, (unroll before after m).text mode limit = (unroll before after n).text mode limit ∧
        ∃ e, (unroll before after m).text mode limit = .error e) ∧
      ∀ b : Value, (unroll before after m).equal limit b = (unroll before after n).equal limit b ∧
        b.equal limit (unroll before after m) = b.equal limit (unroll before after n) := by
  refine ⟨fun a a' m n h hm hn mode => render_congr mode (agreeFrom_stage h hm hn),
    fun a a' b b' k l m n ha hb hk hl hm hn =>
      equalAt_congr (agreeFrom_stage ha hk hm) (agreeFrom_stage hb hl hn), ?_⟩
  intro before after m n hm hn
  have hself (xs : List Value) : List.Forall₂ (fun x y => AgreeTo limit x.at? y.at?) xs xs :=
    List.forall₂_same.2 fun x _ => .refl x.at?
  have hagree : AgreeFrom limit 0 (unroll before after m) (unroll before after n) :=
    fun _ => agree_unroll hm hn (hself before) (hself after)
  refine ⟨fun mode => ⟨render_congr mode hagree, ?_⟩, fun b => ?_⟩
  · exact render_unroll mode limit before after (by omega)
  · have hb : AgreeFrom limit 0 b b := fun _ => .refl b.at?
    exact ⟨equalAt_congr hagree hb, equalAt_congr hb hagree⟩

/-- Under a limit of one, a foreign object inside two lists is as good as any other value,
    and so are all stages of a list that contains itself from the second on. -/
theorem depth_guard_one :
    (AgreeTo 1 (ofValue (.list [.list [.foreign "set"]])).at?
        (ofValue (.list [.list [.nil]])).at? ∧ 1 < 2 ∧ 1 < 5) ∧
      (Value.list [.list [.foreign "set"]]).text .readable 1 =
        (Value.list [.list [.nil]]).text .readable 1 ∧
      (Value.list [.list [.foreign "set"]]).equal 1 (.list [.list [.nil]]) =
        (Value.list [.list [.nil]]).equal 1 (.list [.list [.foreign "set"]]) ∧
      (unroll [.nil] [] 2).text .display 1 = (unroll [.nil] [] 5).text .display 1 := by
  have hagree : AgreeTo 1 (ofValue (.list [.list [.foreign "set"]])).at?
      (ofValue (.list [.list [.nil]])).at? :=
    AgreeTo.lists_succ (.cons (AgreeTo.lists_zero rfl) .nil)
  obtain ⟨texts, answers, stages⟩ := depth_guard 1
  exact ⟨⟨hagree, by decide, by decide⟩,
    texts _ _ 1 1 hagree (Nat.le_refl 1) (Nat.le_refl 1) .readable,
    answers _ _ _ _ 1 1 1 1 hagree hagree.symm (Nat.le_refl 1) (Nat.le_refl 1) (Nat.le_refl 1)
      (Nat.le_refl 1),
    ((stages [.nil] [] 2 5 (by decide) (by decide)).1 .display).1⟩

end Unfolding

end LispCore

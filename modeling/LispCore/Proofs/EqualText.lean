/-
  LispCore — equal values print alike.

  * `Double.eq_of_equal`: equal doubles are the same one, but for the two zeros;
  * `Value.Alike.widened_eq`: alike values are the same once every integer that is a
    double is replaced by it;
  * `Unfolding.text_of_equal`: equal values have texts, and the same ones.
-/
import LispCore.Proofs.SelfComparison
import LispCore.Proofs.Widening

namespace LispCore

/-! ## Doubles -/

namespace Double

/-- Negative zero, which is equal to zero but has a text of its own. -/
def negativeZero : Double := signed true .zero

/-- But for negative zero, a place belongs to one double. -/
theorem eq_of_place? {x : Double} {p : ℤ} (h : x.place? = some p) (hx : x ≠ negativeZero) :
    x = signed (p < 0) (.ofRank p.natAbs) := by
  cases x with
  | nan => cases h
  | signed negative size =>
    cases negative with
    | false =>
      obtain rfl : (size.rank : ℤ) = p := by simpa [place?] using h
      rw [decide_eq_false (Int.not_lt.2 (Int.natCast_nonneg _)), Int.natAbs_natCast,
        Magnitude.ofRank_rank]
    | true =>
      obtain rfl : -(size.rank : ℤ) = p := by simpa [place?] using h
      -- a place that is not negative would be that of the other zero
      have hrank : size.rank ≠ 0 := by
        intro h0
        refine hx (congrArg (signed true) ?_)
        rw [← Magnitude.ofRank_rank size, h0]
        rfl
      rw [decide_eq_true (by omega), Int.natAbs_neg, Int.natAbs_natCast, Magnitude.ofRank_rank]

theorem eq_of_equal {x y : Double} (h : x.equal y = true) (hx : x ≠ negativeZero)
    (hy : y ≠ negativeZero) : x = y := by
  unfold equal at h
  split at h
  · next p q hp hq => rw [eq_of_place? hp hx, eq_of_place? hq hy, beq_iff_eq.1 h]
  · cases h

/-- An integer that is zero stands for zero without a sign. -/
theorem ofInt_ne_negativeZero {n : ℤ} (h : (ofInt n).equalInt n = true) :
    ofInt n ≠ negativeZero := by
  intro h0
  have hunits : negativeZero.units? = some 0 := by decide
  rw [h0, equalInt, hunits, beq_iff_eq, Option.some.injEq, eq_comm, mul_eq_zero] at h
  obtain rfl : n = 0 := h.resolve_right (Int.natCast_ne_zero.2 unitsPerOne_pos.ne')
  simp [ofInt, negativeZero] at h0

end Double

namespace Value

/-! ## Atoms -/

/-- What holds no number is known from what it holds. -/
theorem eq_of_content? {a b : Value} {c : Content} (hc : ∀ e, c ≠ .number e)
    (ha : a.content? = some c) (hb : b.content? = some c) : a = b := by
  have hva := isOf_of_variant (variant_of_content? ha)
  have hvb := isOf_of_variant (variant_of_content? hb)
  cases c with
  | number e => exact absurd rfl (hc e)
  | text _ | name _ | truth _ =>
    obtain ⟨_, rfl⟩ := hva
    obtain ⟨_, rfl⟩ := hvb
    cases ha
    cases hb
    rfl
  | nothing => exact Eq.trans hva (Eq.symm hvb)

/-- An integer that is equal to a double is replaced by it. -/
theorem widenAtom_of_sameContent {x : Double} {n : ℤ}
    (h : (number x).SameContent (integer n)) (hx : x ≠ .negativeZero) :
    (integer n).widenAtom = number x := by
  have he := (sameContent_integer_right (Alike.atoms h).not_alien.2).1 h
  have hn : IsExact n := ⟨x, he⟩
  have hequal : (Double.ofInt n).equal x = true :=
    Double.equal_iff.2 ⟨_, Double.equalInt_iff.1 hn.equalInt, Double.equalInt_iff.1 he⟩
  rw [widenAtom_exact hn,
    Double.eq_of_equal hequal (Double.ofInt_ne_negativeZero hn.equalInt) hx]

theorem SameContent.widenAtom_eq {a b : Value} (h : a.SameContent b)
    (ha : a ≠ number .negativeZero) (hb : b ≠ number .negativeZero) :
    a.widenAtom = b.widenAtom := by
  have ⟨c, hca, hcb⟩ := h
  by_cases hc : ∃ e, c = .number e
  · obtain ⟨e, rfl⟩ := hc
    have hne {x : Double} (hx : number x ≠ number .negativeZero) : x ≠ .negativeZero :=
      fun h => hx (congrArg number h)
    -- an exact value leaves open whether it is an integer or a double that holds it
    rcases isOf_of_variant (variant_of_content? hca) with ⟨x, rfl⟩ | ⟨m, rfl⟩ <;>
      rcases isOf_of_variant (variant_of_content? hcb) with ⟨y, rfl⟩ | ⟨n, rfl⟩
    · exact congrArg number (Double.eq_of_equal (sameContent_numbers.1 h) (hne ha) (hne hb))
    · exact (widenAtom_of_sameContent h (hne ha)).symm
    · exact widenAtom_of_sameContent (sameContent_comm.1 h) (hne hb)
    · obtain ⟨hm, hn⟩ := (Alike.atoms h).not_alien
      rw [(sameContent_integers hm hn).1 h]
  · rw [eq_of_content? (fun e he => hc ⟨e, he⟩) hca hcb]

/-! ## Values -/

/-- Negative zero is nowhere in the layout. -/
def NoNegativeZero (a : Layout) : Prop := ∀ p, a p ≠ some (number .negativeZero)

theorem NoNegativeZero.element {xs : List Value} (h : NoNegativeZero (list xs).at?) {i : ℕ}
    {x : Value} (hx : xs[i]? = some x) : NoNegativeZero x.at? := by
  intro p
  rw [← at?_list_cons hx]
  exact h (i :: p)

/-- **Alike values become the same** when every integer that is a double is replaced. -/
theorem Alike.widened_eq {a b : Value} (h : a.Alike b) :
    NoNegativeZero a.at? → NoNegativeZero b.at? → a.widened = b.widened := by
  induction h with
  | @atoms a b hab =>
    intro ha hb
    obtain ⟨c, hca, hcb⟩ := hab
    rw [widened_atom (by rintro xs rfl; cases hca), widened_atom (by rintro xs rfl; cases hcb)]
    exact SameContent.widenAtom_eq ⟨c, hca, hcb⟩ (fun h => ha [] (congrArg some h))
      fun h => hb [] (congrArg some h)
  | @lists xs ys hlen _ ih =>
    intro ha hb
    rw [widened_list, widened_list]
    refine congrArg list (List.ext_getElem (by simpa using hlen) fun i hi hj => ?_)
    rw [List.length_map] at hi hj
    have hx := List.getElem?_eq_getElem hi
    have hy := List.getElem?_eq_getElem hj
    rw [List.getElem_map, List.getElem_map]
    exact ih i _ _ ⟨hx, hy⟩ (ha.element hx) (hb.element hy)

/-- What is equal to something has a text. -/
theorem exists_text_of_equal {limit : ℕ} (hl : limit ≤ stackLevels) {a b : Value}
    (h : a.equal limit b = .ok true) (mode : Mode) : ∃ t, a.text mode limit = .ok t := by
  obtain ⟨halike, hw⟩ := (equal_true_iff hl).1 h
  have hself : a.equal limit a = .ok true :=
    (equal_true_iff hl).2 ⟨halike.trans halike.symm, hw⟩
  have hplain (p : Path) (x : Value) (hx : a.at? p = some x) : x.Plain :=
    have ⟨_, hnan, hfunction, _⟩ := (equal_self_iff hl a).1 hself p x hx
    ⟨hnan, hfunction⟩
  exact (accords_render a 0 fun p x hx _ => hplain p x hx).ok_iff.2 hself

end Value

namespace Unfolding

/-- **Equal values print alike**, also where one has an integer and the other a double, if
    negative zero is in neither of them.  Any stages beyond the limit stand for values that
    contain themselves. -/
theorem text_of_equal {limit m n : ℕ} (hl : limit ≤ stackLevels) (hm : limit ≤ m) (hn : limit ≤ n)
    (a b : Unfolding) (ha : ∀ p, a.at? p ≠ some (.number .negativeZero))
    (hb : ∀ p, b.at? p ≠ some (.number .negativeZero))
    (h : (a.stage m).equal limit (b.stage n) = .ok true) (mode : Mode) :
    ∃ t, (a.stage m).text mode limit = .ok t ∧ (b.stage n).text mode limit = .ok t := by
  obtain ⟨halike, hw⟩ := (Value.equal_true_iff hl).1 h
  -- no position of an equal value is beyond the limit, so that its stage has no other ones
  have stage {a : Unfolding} {k : ℕ} (hk : limit ≤ k) (hw : (a.stage k).Within limit)
      (ha : Value.NoNegativeZero a.at?) : Value.NoNegativeZero (a.stage k).at? := by
    intro p hp
    obtain ⟨y, hy, hxy⟩ := (a.agree_stage k).symm.exists_sameHead
      (Nat.le_trans (hw p _ hp) hk) hp
    cases hxy
    exact ha p hy
  obtain ⟨t, ht⟩ := Value.exists_text_of_equal hl h mode
  refine ⟨t, ht, ?_⟩
  have hwidened := halike.widened_eq (stage hm hw ha) (stage hn (halike.within hw) hb)
  calc (b.stage n).text mode limit
      = (b.stage n).widened.text mode limit := (Value.render_widened mode limit 0 _).symm
    _ = (a.stage m).widened.text mode limit := by rw [hwidened]
    _ = (a.stage m).text mode limit := Value.render_widened mode limit 0 _
    _ = .ok t := ht

/-- The integer 2⁶⁰ in a list and the double of this value print alike. -/
theorem text_of_equal_mixed : 1 ≤ stackLevels ∧
    (Value.list [.integer (2 ^ 60)]).equal 1 (.list [.number (.ofBits 0x43b0000000000000)]) =
      .ok true ∧
    ∃ t, (Value.list [.integer (2 ^ 60)]).text .readable 1 = .ok t ∧
      (Value.list [.number (.ofBits 0x43b0000000000000)]).text .readable 1 = .ok t := by
  have single {v : Value} (hv : ∀ xs, v ≠ .list xs) (hne : v ≠ .number .negativeZero) (p : Path) :
      (Value.list [v]).at? p ≠ some (.number .negativeZero) := by
    refine fun hp => (Value.forall_positions_list
      (P := fun _ w => w ≠ .number .negativeZero)).2 ⟨by simp, fun x hx => ?_⟩ p _ hp rfl
    obtain rfl := List.mem_singleton.1 hx
    exact (Value.forall_positions_atom (P := fun _ w => w ≠ .number .negativeZero) hv).2 hne
  have hequal : (Value.list [.integer (2 ^ 60)]).equal 1
      (.list [.number (.ofBits 0x43b0000000000000)]) = .ok true := by decide +kernel
  have hne : Value.number (.ofBits 0x43b0000000000000) ≠ .number .negativeZero := fun h =>
    absurd (Value.number.inj h) (by decide +kernel)
  exact ⟨by decide, hequal, text_of_equal (m := 1) (n := 1) (by decide) (by decide) (by decide)
    (ofValue _) (ofValue _) (single (by simp) (by simp)) (single (by simp) hne) hequal .readable⟩

end Unfolding

end LispCore

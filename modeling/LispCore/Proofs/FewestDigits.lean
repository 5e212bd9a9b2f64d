/-
  LispCore — the shortest decimal has the fewest digits.

  * `Magnitude.Rounds.between`: what lies between two values that are rounded to a
    magnitude is rounded to it as well;
  * `Magnitude.onGrid?_of_point`: for that reason only the two points of a grid next to the
    value have to be tried;
  * `Magnitude.onGrid?_of_decimal`: if a decimal with few digits reads back, a point of the
    grid with that many digits does;
  * `Magnitude.shortest_coefficient_lt`: no decimal that reads back has fewer digits than the
    shortest one.
-/
import LispCore.Proofs.Shortest

namespace LispCore

namespace Decimal

theorem trim_coefficient_le (d : Decimal) : d.trim.coefficient ≤ d.coefficient := by
  fun_induction trim d with
  | case1 d h ih => exact ih.trans (Nat.div_le_self _ _)
  | case2 d h => exact le_rfl

/-- A coefficient without its trailing zeros has no trailing zero. -/
theorem trim_coefficient_mod {d : Decimal} (h : 0 < d.trim.coefficient) :
    d.trim.coefficient % 10 ≠ 0 := by
  fun_induction trim d with
  | case1 d h' ih => exact ih h
  | case2 d h' => exact fun hmod => h' ⟨h, hmod⟩

/-- The power of ten after the coefficients of some length has a single digit. -/
theorem trim_coefficient_lt {d : Decimal} {k : ℕ} (h : d.coefficient ≤ 10 ^ (k + 1)) :
    d.trim.coefficient < 10 ^ (k + 1) := by
  rcases Nat.lt_or_eq_of_le h with hlt | heq
  · exact d.trim_coefficient_le.trans_lt hlt
  · have hdiv : d.coefficient / 10 = 10 ^ k := by
      rw [heq, pow_succ, Nat.mul_div_cancel _ (by decide)]
    have hten : 0 < d.coefficient ∧ d.coefficient % 10 = 0 := by
      rw [heq, pow_succ, Nat.mul_mod_left]
      exact ⟨by positivity, rfl⟩
    rw [trim, if_pos hten]
    refine (trim_coefficient_le _).trans_lt ?_
    rw [hdiv]
    exact Nat.pow_lt_pow_right (by decide) k.lt_succ_self

/-- A decimal is on every grid that is at least as fine as its own. -/
theorem units_of_exponent_le {d : Decimal} {e : ℤ} (h : e ≤ d.exponent) : d.units =
    (⟨d.coefficient * 10 ^ (d.exponent - e).toNat, e⟩ : Decimal).units := by
  rw [units, units_mk, Nat.cast_mul, Nat.cast_pow, ← zpow_natCast, Int.toNat_of_nonneg (by omega),
    zpow_sub₀ (by norm_num)]
  push_cast
  field_simp

end Decimal

namespace Magnitude

/-- **What is rounded to a magnitude is convex.** -/
theorem Rounds.between {q q' t : ℚ} {m m' : Magnitude} (h : Rounds q m) (h' : Rounds q' m)
    (ht : Rounds t m') (hq : q ≤ t) (hq' : t ≤ q') : m' = m := by
  obtain ⟨r, hr, hm⟩ := h
  obtain ⟨r', hr', hm'⟩ := h'
  obtain ⟨s, hs, rfl⟩ := ht
  have hrs := hr.mono hs hq
  have hsr := hs.mono hr' hq'
  have hrank : min r infinityRank = min r' infinityRank :=
    congrArg rank (hm.symm.trans hm')
  rw [hm, ofRank, ofRank, Magnitude.mk.injEq]
  omega

/-- The digits before the point are not underestimated. -/
theorem lt_leading (m : Magnitude) : (m.units : ℚ) < unitsPerOne * (10 : ℚ) ^ m.leading := by
  obtain ⟨k, hk⟩ : ∃ k : ℕ, k = 324 := ⟨_, rfl⟩
  have hpow := lt_pow_digitCount (Nat.pow 10 k * m.units / unitsPerOne)
  rw [m.leading_eq hk]
  generalize digitCount (Nat.pow 10 k * m.units / unitsPerOne) = count at *
  have hmul := (Nat.div_lt_iff_lt_mul unitsPerOne_pos).1 hpow
  rw [zpow_sub₀ (by norm_num), zpow_natCast, zpow_natCast, ← mul_div_assoc,
    lt_div_iff₀ (by positivity), mul_comm, mul_comm (unitsPerOne : ℚ)]
  exact_mod_cast hmul

/-- **If a point of a grid reads back, one of the two next to the value does.** -/
theorem onGrid?_of_point {m : Magnitude} {e : ℤ} {c : ℕ}
    (h : (⟨c, e⟩ : Decimal).toMagnitude = m) : (m.onGrid? e).isSome := by
  refine onGrid?_isSome rfl ?_
  generalize hlow : m.units * Nat.pow 10 (-e).toNat / (unitsPerOne * Nat.pow 10 e.toNat) = low
  obtain ⟨hle, hlt⟩ := grid_around m.units e hlow.symm
  have hround := (⟨c, e⟩ : Decimal).rounds_toMagnitude
  rw [h] at hround
  have hgrid {a b : ℕ} (hab : a ≤ b) :
      (⟨a, e⟩ : Decimal).units ≤ (⟨b, e⟩ : Decimal).units := by
    rw [Decimal.units_mk, Decimal.units_mk]
    gcongr
  rcases Nat.lt_or_ge low c with hc | hc
  · right
    refine (rounds_units m).between hround (Decimal.rounds_toMagnitude _) ?_ (hgrid hc)
    rw [Decimal.units_mk, Nat.cast_add, Nat.cast_one]
    exact hlt.le
  · left
    refine hround.between (rounds_units m) (Decimal.rounds_toMagnitude _) (hgrid hc) ?_
    rwa [Decimal.units_mk]

/-- **If a decimal with few digits reads back, a point of the grid with that many does.** -/
theorem onGrid?_of_decimal {m : Magnitude} (hpos : 0 < m.rank) {d : Decimal} {k : ℕ}
    (hd : d.toMagnitude = m) (hk : d.coefficient < 10 ^ (k + 1)) :
    (m.onGrid? (m.leading - (k + 1 : ℕ))).isSome := by
  have hround := d.rounds_toMagnitude
  rw [hd] at hround
  rcases le_or_gt (m.leading - (k + 1 : ℕ)) d.exponent with he | he
  · have hpoint := Decimal.toMagnitude_eq_of_units (Decimal.units_of_exponent_le he)
    exact onGrid?_of_point (hpoint.symm.trans hd)
  · -- the decimal is so small that the first point with all the digits lies between
    have hpoint : (⟨10 ^ k, m.leading - (k + 1 : ℕ)⟩ : Decimal).units =
        unitsPerOne * (10 : ℚ) ^ (m.leading - 1) := by
      rw [Decimal.units, Nat.cast_pow, Nat.cast_ofNat, ← zpow_natCast,
        ← zpow_add₀ (by norm_num)]
      congr 2
      push_cast
      ring
    have hle : d.units ≤ unitsPerOne * (10 : ℚ) ^ (m.leading - 1) := by
      have hcoefficient : (d.coefficient : ℚ) ≤ (10 : ℚ) ^ ((k + 1 : ℕ) : ℤ) := by
        rw [zpow_natCast]
        exact_mod_cast hk.le
      calc d.units ≤ unitsPerOne * ((10 : ℚ) ^ ((k + 1 : ℕ) : ℤ) * (10 : ℚ) ^ d.exponent) := by
            unfold Decimal.units
            gcongr
        _ = unitsPerOne * (10 : ℚ) ^ (((k + 1 : ℕ) : ℤ) + d.exponent) := by
            rw [zpow_add₀ (by norm_num)]
        _ ≤ unitsPerOne * (10 : ℚ) ^ (m.leading - 1) := by
            gcongr
            · norm_num
            · omega
    suffices h : (⟨10 ^ k, m.leading - (k + 1 : ℕ)⟩ : Decimal).toMagnitude = m from
      onGrid?_of_point h
    refine hround.between (rounds_units m) (Decimal.rounds_toMagnitude _) ?_ ?_
    · rwa [hpoint]
    · rw [hpoint]
      exact leading_le hpos

/-- The points of a grid next to the value have no more digits than the grid. -/
theorem coefficient_le_of_onGrid? {m : Magnitude} {k : ℕ} {d : Decimal}
    (h : m.onGrid? (m.leading - k) = some d) : d.coefficient ≤ 10 ^ k := by
  unfold onGrid? at h
  dsimp only at h
  generalize he : m.leading - (k : ℤ) = e at h
  generalize hlow : m.units * Nat.pow 10 (-e).toNat / (unitsPerOne * Nat.pow 10 e.toNat) = low at h
  have hcoefficient : d.coefficient ≤ low + 1 := by
    split at h
    · split at h
      · cases h; exact low.le_succ
      · cases h; exact le_rfl
    · cases h; exact low.le_succ
    · cases h; exact le_rfl
    · cases h
  have hU : (0 : ℚ) < unitsPerOne := by exact_mod_cast unitsPerOne_pos
  have hgrid : unitsPerOne * (10 : ℚ) ^ m.leading =
      (10 ^ k : ℕ) * (unitsPerOne * (10 : ℚ) ^ e) := by
    rw [show m.leading = k + e by omega, zpow_add₀ (by norm_num), zpow_natCast, Nat.cast_pow]
    push_cast
    ring
  have hlt : (low : ℚ) < (10 ^ k : ℕ) := by
    refine lt_of_mul_lt_mul_right ?_ (by positivity : 0 ≤ unitsPerOne * (10 : ℚ) ^ e)
    rw [← hgrid]
    exact (grid_around m.units e hlow.symm).1.trans_lt m.lt_leading
  exact hcoefficient.trans (Nat.cast_lt.1 hlt)

/-- What is found first is found no later than what is there. -/
theorem exists_le_of_findSome?_range {α : Type} {f : ℕ → Option α} {n j : ℕ} {a : α}
    (h : (List.range n).findSome? f = some a) (hj : (f j).isSome) : ∃ i ≤ j, f i = some a := by
  obtain ⟨before, i, after, hrange, hi, hnone⟩ := List.findSome?_eq_some_iff.1 h
  refine ⟨i, ?_, hi⟩
  by_contra hij
  have hin : i ∈ List.range n := by simp [hrange]
  have hmem : j ∈ before ++ i :: after := by
    rw [← hrange, List.mem_range]
    exact (Nat.lt_of_not_le hij).trans (List.mem_range.1 hin)
  have hsorted := List.pairwise_lt_range (n := n)
  rw [hrange, List.pairwise_append, List.pairwise_cons] at hsorted
  rcases List.mem_append.1 hmem with hbefore | hafter
  · rw [hnone j hbefore] at hj
    cases hj
  · rcases List.mem_cons.1 hafter with rfl | hafter
    · exact hij le_rfl
    · exact hij (hsorted.2.1.1 j hafter).le

/-- **No decimal that reads back has fewer digits than the shortest one.** -/
theorem shortest_coefficient_lt {m : Magnitude} (hpos : 0 < m.rank) {d : Decimal} {k : ℕ}
    (hd : d.toMagnitude = m) (hk : d.coefficient < 10 ^ (k + 1)) :
    m.shortest.coefficient < 10 ^ (k + 1) := by
  obtain ⟨found, hfound, heq⟩ := shortest_eq hpos
  obtain ⟨n, hn, hgrid⟩ := exists_le_of_findSome?_range hfound (onGrid?_of_decimal hpos hd hk)
  rw [heq]
  refine (Decimal.trim_coefficient_lt (coefficient_le_of_onGrid? hgrid)).trans_le ?_
  exact Nat.pow_le_pow_right (by decide) (Nat.succ_le_succ hn)

theorem coefficient_pos {m : Magnitude} (hpos : 0 < m.rank) {d : Decimal}
    (h : d.toMagnitude = m) : 0 < d.coefficient := by
  refine Nat.pos_of_ne_zero ?_
  intro hzero
  rw [Decimal.toMagnitude, if_pos hzero] at h
  rw [← h] at hpos
  exact absurd hpos (by decide)

theorem shortest_coefficient_pos {m : Magnitude} (hpos : 0 < m.rank) :
    0 < m.shortest.coefficient := coefficient_pos hpos (shortest_toMagnitude hpos)

/-- The shortest decimal has no trailing zero. -/
theorem shortest_coefficient_mod {m : Magnitude} (hpos : 0 < m.rank) :
    m.shortest.coefficient % 10 ≠ 0 := by
  have hcoefficient := shortest_coefficient_pos hpos
  obtain ⟨found, -, heq⟩ := shortest_eq hpos
  rw [heq] at hcoefficient ⊢
  exact Decimal.trim_coefficient_mod hcoefficient

end Magnitude

end LispCore

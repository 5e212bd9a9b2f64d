/-
  LispCore — the shortest decimal reads back.

  A decimal is only chosen if it reads back, so what has to be shown is that one is
  found: with seventeen digits the grid is finer than the doubles are, and one of the
  two points next to a value is closer to it than to its neighbours.
-/
import LispCore.Double.Shortest
import LispCore.Proofs.DecimalValue
import LispCore.Proofs.DigitCount

namespace LispCore

namespace Magnitude

theorem step_mono {r s : ℕ} (h : r ≤ s) : step r ≤ step s :=
  Nat.pow_le_pow_right Nat.two_pos (Nat.sub_le_sub_right (Nat.div_le_div_right h) 1)

/-- A value counts at most 2⁵³ of the steps below it. -/
theorem unitsOfRank_succ_le (r : ℕ) : unitsOfRank (r + 1) ≤ 2 * ranksPerBinade * step r := by
  rw [unitsOfRank_succ]
  rcases rank_cases r with h | ⟨k, s, hs, rfl⟩
  · rw [unitsOfRank_of_lt h, step_of_lt h]
    omega
  · rw [unitsOfRank_binade hs, step_binade hs, ← Nat.succ_mul]
    exact Nat.mul_le_mul_right _ (by omega)

/-- **Of two points around a value that are closer together than the values there, one
    is nearest to it.** -/
theorem nearest_of_close {low high : ℚ} {r : ℕ} (hlow : low ≤ unitsOfRank (r + 1))
    (hhigh : (unitsOfRank (r + 1) : ℚ) < high) (hclose : high - low < step r) :
    Nearest low (r + 1) ∨ Nearest high (r + 1) := by
  have hstep : (step r : ℚ) ≤ step (r + 1) := by exact_mod_cast step_mono r.le_succ
  have hpos : (0 : ℚ) < step r := by exact_mod_cast step_pos r
  have hbelow : middle r = unitsOfRank (r + 1) - (step r : ℚ) / 2 := by
    rw [middle_eq, unitsOfRank_succ, Nat.cast_add]; ring
  have habove := middle_eq (r + 1)
  by_cases h : middle r < low
  · refine Or.inl ⟨fun s hs => Or.inl ?_, Or.inl ?_⟩
    · cases hs; exact h
    · linarith
  · refine Or.inr ⟨fun s hs => Or.inl ?_, Or.inl ?_⟩
    · cases hs; linarith
    · linarith

theorem toMagnitude_of_onGrid? {m : Magnitude} {e : ℤ} {d : Decimal} (h : m.onGrid? e = some d) :
    d.toMagnitude = m := by
  unfold onGrid? at h
  dsimp only at h
  split at h
  · next hlow hhigh =>
    split at h
    · cases h; exact beq_iff_eq.1 hlow
    · cases h; exact beq_iff_eq.1 hhigh
  · next hlow _ => cases h; exact beq_iff_eq.1 hlow
  · next _ hhigh => cases h; exact beq_iff_eq.1 hhigh
  · cases h

theorem onGrid?_isSome {m : Magnitude} {e : ℤ} {low : ℕ}
    (hlow : low = m.units * Nat.pow 10 (-e).toNat / (unitsPerOne * Nat.pow 10 e.toNat))
    (h : (⟨low, e⟩ : Decimal).toMagnitude = m ∨ (⟨low + 1, e⟩ : Decimal).toMagnitude = m) :
    (m.onGrid? e).isSome := by
  unfold onGrid?
  dsimp only
  rw [← hlow]
  split
  · rfl
  · rfl
  · rfl
  · next h₁ h₂ =>
    rcases h with h | h
    · exact absurd h (beq_eq_false_iff_ne.1 h₁)
    · exact absurd h (beq_eq_false_iff_ne.1 h₂)

/-- The points of a grid around a value. -/
theorem grid_around (u : ℕ) (e : ℤ) {low : ℕ}
    (hlow : low = u * Nat.pow 10 (-e).toNat / (unitsPerOne * Nat.pow 10 e.toNat)) :
    (low : ℚ) * (unitsPerOne * (10 : ℚ) ^ e) ≤ u ∧
      (u : ℚ) < (low + 1) * (unitsPerOne * (10 : ℚ) ^ e) := by
  have hden : 0 < unitsPerOne * Nat.pow 10 e.toNat :=
    Nat.mul_pos unitsPerOne_pos (Nat.pow_pos (by decide))
  have hscale : (0 : ℚ) < (Nat.pow 10 (-e).toNat : ℕ) := by
    exact_mod_cast Nat.pow_pos (n := (-e).toNat) (show 0 < 10 by decide)
  have hgrid : (unitsPerOne * (10 : ℚ) ^ e) =
      (unitsPerOne * Nat.pow 10 e.toNat : ℕ) / (Nat.pow 10 (-e).toNat : ℕ) := by
    rw [Decimal.ten_zpow, Nat.cast_mul, mul_div_assoc]
    rfl
  have hle : low * (unitsPerOne * Nat.pow 10 e.toNat) ≤ u * Nat.pow 10 (-e).toNat :=
    hlow ▸ Nat.div_mul_le_self _ _
  have hlt : u * Nat.pow 10 (-e).toNat < (low + 1) * (unitsPerOne * Nat.pow 10 e.toNat) :=
    (Nat.div_lt_iff_lt_mul hden).1 (hlow ▸ Nat.lt_succ_self _)
  rw [hgrid, ← mul_div_assoc, ← mul_div_assoc, div_le_iff₀ hscale, lt_div_iff₀ hscale]
  exact ⟨by exact_mod_cast hle, by exact_mod_cast hlt⟩

/-- **A grid of seventeen digits has a point that reads back.** -/
theorem onGrid?_of_fine {m : Magnitude} {e : ℤ} (hpos : 0 < m.rank)
    (he : (unitsPerOne * (10 : ℚ) ^ e) * 10 ^ 16 ≤ m.units) : (m.onGrid? e).isSome := by
  obtain ⟨r, hr⟩ : ∃ r, m.rank = r + 1 := ⟨m.rank - 1, by omega⟩
  refine onGrid?_isSome rfl ?_
  generalize hlow : m.units * Nat.pow 10 (-e).toNat / (unitsPerOne * Nat.pow 10 e.toNat) = low
  obtain ⟨hle, hlt⟩ := grid_around m.units e hlow.symm
  have hfew : (m.units : ℚ) ≤ 2 * ranksPerBinade * step r := by
    rw [units, hr]
    exact_mod_cast unitsOfRank_succ_le r
  have hstep : (0 : ℚ) < step r := by exact_mod_cast step_pos r
  have hP : (2 * ranksPerBinade : ℚ) < 10 ^ 16 := by
    rw [ranksPerBinade]; norm_num
  have hclose : (unitsPerOne * (10 : ℚ) ^ e) < step r := by
    have := mul_lt_mul_of_pos_right hP hstep
    linarith
  rw [units, hr] at hle hlt
  have hnear := nearest_of_close hle hlt (by linarith)
  rw [← hr] at hnear
  refine hnear.imp (fun h => ?_) fun h => ?_
  · exact Decimal.toMagnitude_of_nearest (by rwa [Decimal.units_mk])
  · exact Decimal.toMagnitude_of_nearest (by rwa [Decimal.units_mk, Nat.cast_add, Nat.cast_one])

theorem units_pos {m : Magnitude} (h : 0 < m.rank) : 0 < m.units := by
  have := unitsOfRank_strictMono h
  rwa [unitsOfRank_zero] at this

theorem leading_eq (m : Magnitude) {k : ℕ} (h : k = 324) :
    m.leading = (digitCount (Nat.pow 10 k * m.units / unitsPerOne) : ℤ) - k := by
  unfold leading
  rw [← h]
  omega

/-- The digits before the point are not overestimated. -/
theorem leading_le {m : Magnitude} (h : 0 < m.rank) :
    unitsPerOne * (10 : ℚ) ^ (m.leading - 1) ≤ m.units := by
  obtain ⟨k, hk⟩ : ∃ k : ℕ, k = 324 := ⟨_, rfl⟩
  have hscaled : unitsPerOne ≤ Nat.pow 10 k * m.units :=
    Nat.le_trans (unitsPerOne_le hk) (Nat.le_mul_of_pos_right _ (units_pos h))
  have hpow := pow_digitCount_le (Nat.div_pos hscaled unitsPerOne_pos)
  have hcount : 0 < digitCount (Nat.pow 10 k * m.units / unitsPerOne) := by
    unfold digitCount; split <;> simp
  rw [m.leading_eq hk]
  generalize digitCount (Nat.pow 10 k * m.units / unitsPerOne) = count at *
  have hmul := (Nat.le_div_iff_mul_le unitsPerOne_pos).1 hpow
  rw [show (count : ℤ) - k - 1 = ((count - 1 : ℕ) : ℤ) - k by omega,
    zpow_sub₀ (by norm_num), zpow_natCast, zpow_natCast, ← mul_div_assoc,
    div_le_iff₀ (by positivity), mul_comm, mul_comm (m.units : ℚ)]
  exact_mod_cast hmul

/-- Some grid has a point that reads back, and that point without its trailing zeros is the
    shortest decimal. -/
theorem shortest_eq {m : Magnitude} (h : 0 < m.rank) :
    ∃ d, ((List.range 17).findSome? fun n : ℕ => m.onGrid? (m.leading - (n + 1 : ℕ))) = some d ∧
      m.shortest = d.trim := by
  unfold shortest
  dsimp only
  cases hfound : (List.range 17).findSome? fun n : ℕ => m.onGrid? (m.leading - (n + 1 : ℕ)) with
  | some d => exact ⟨d, rfl, rfl⟩
  | none =>
    have hnone := List.findSome?_eq_none_iff.1 hfound 16 (by decide)
    have hsome := onGrid?_of_fine (e := m.leading - (16 + 1 : ℕ)) h ?_
    · rw [hnone] at hsome; cases hsome
    · rw [mul_assoc, ← zpow_natCast (10 : ℚ) 16, ← zpow_add₀ (by norm_num)]
      convert leading_le h using 3
      push_cast
      ring

/-- **The shortest decimal reads back.** -/
theorem shortest_toMagnitude {m : Magnitude} (h : 0 < m.rank) : m.shortest.toMagnitude = m := by
  obtain ⟨d, hfound, hd⟩ := shortest_eq h
  obtain ⟨n, -, hn⟩ := List.exists_of_findSome?_eq_some hfound
  rw [hd, Decimal.toMagnitude_eq_of_units (Decimal.units_trim d)]
  exact toMagnitude_of_onGrid? hn

end Magnitude

end LispCore

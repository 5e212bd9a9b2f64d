/-
  LispCore — the double of a decimal is the one nearest to it.

  * `Decimal.units`: the exact value of a decimal in units;
  * `Decimal.rounds_toMagnitude`: the shortcuts of `Decimal.toMagnitude` change
    nothing, so that decimals of one value have one double;
  * `Decimal.units_trim`: trailing zeros do not matter.
-/
import LispCore.Double.Decimal
import LispCore.Proofs.Nearest

namespace LispCore

-- the exponent is kept symbolic, so that nothing computes the power
theorem unitsPerOne_le {k : ℕ} (h : k = 324) : unitsPerOne ≤ Nat.pow 10 k := by
  subst h
  decide +kernel

namespace Decimal

/-- The exact value in units. -/
def units (d : Decimal) : ℚ := unitsPerOne * (d.coefficient * (10 : ℚ) ^ d.exponent)

theorem units_mk (c : ℕ) (e : ℤ) :
    (⟨c, e⟩ : Decimal).units = c * (unitsPerOne * (10 : ℚ) ^ e) := by
  rw [units]; ring

theorem den_pos (d : Decimal) : 0 < d.den := Nat.pow_pos (by decide)

/-- A power of ten as the quotient that the definitions use. -/
theorem ten_zpow (e : ℤ) : (10 : ℚ) ^ e = (10 ^ e.toNat : ℕ) / (10 ^ (-e).toNat : ℕ) := by
  rcases le_total 0 e with h | h
  · rw [show (-e).toNat = 0 by omega, pow_zero, Nat.cast_one, div_one, Nat.cast_pow,
      ← zpow_natCast, Int.toNat_of_nonneg h]
    rfl
  · rw [show e.toNat = 0 by omega, pow_zero, Nat.cast_one, one_div, Nat.cast_pow,
      ← zpow_natCast, Int.toNat_of_nonneg (by omega), zpow_neg, inv_inv]
    rfl

theorem num_div_den (d : Decimal) : (d.num : ℚ) / d.den = d.units := by
  have hnum : d.num = unitsPerOne * (d.coefficient * 10 ^ d.exponent.toNat) := rfl
  have hden : d.den = 10 ^ (-d.exponent).toNat := rfl
  rw [units, ten_zpow, hnum, hden]
  push_cast
  ring

/-- With an exponent above 310 a decimal is beyond every finite double. -/
theorem infinity_le_units {d : Decimal} (hc : d.coefficient ≠ 0) (he : 310 < d.exponent) :
    (Magnitude.unitsOfRank infinityRank : ℚ) ≤ d.units := by
  have hfinite : Magnitude.unitsOfRank infinityRank ≤ unitsPerOne * (1 * 10 ^ 311) := by
    decide +kernel
  obtain ⟨k, hk⟩ : ∃ k : ℕ, d.exponent = (311 + k : ℕ) := ⟨(d.exponent - 311).toNat, by omega⟩
  have hpow : 10 ^ 311 ≤ 10 ^ (311 + k) := pow_le_pow_right₀ (by decide) (Nat.le_add_right 311 k)
  have hle : Magnitude.unitsOfRank infinityRank ≤
      unitsPerOne * (d.coefficient * 10 ^ (311 + k)) :=
    hfinite.trans (Nat.mul_le_mul_left _ (Nat.mul_le_mul (Nat.one_le_iff_ne_zero.2 hc) hpow))
  refine (Nat.cast_le.2 hle).trans_eq ?_
  rw [units, hk, zpow_natCast, Nat.cast_mul, Nat.cast_mul, Nat.cast_pow]
  rfl

/-- A decimal below 10⁻³³⁰ is nearest to zero. -/
theorem units_lt_half {d : Decimal} (he : d.exponent + (Nat.log2 d.coefficient : ℤ) < -331) :
    d.units < 1 / 2 := by
  obtain ⟨k, hk⟩ : ∃ k : ℕ, k = 324 := ⟨_, rfl⟩
  have hunits : (unitsPerOne : ℚ) ≤ 10 ^ (k : ℤ) := by
    rw [zpow_natCast]
    exact_mod_cast unitsPerOne_le hk
  have hcoeff : (d.coefficient : ℚ) ≤ 10 ^ ((Nat.log2 d.coefficient + 1 : ℕ) : ℤ) := by
    have h := (Nat.lt_log2_self (n := d.coefficient)).le.trans
      (Nat.pow_le_pow_left (show 2 ≤ 10 by decide) _)
    rw [zpow_natCast]
    exact_mod_cast h
  calc d.units ≤ 10 ^ (k : ℤ) *
        (10 ^ ((Nat.log2 d.coefficient + 1 : ℕ) : ℤ) * (10 : ℚ) ^ d.exponent) := by
        unfold units; gcongr
    _ = (10 : ℚ) ^ ((k : ℤ) + (((Nat.log2 d.coefficient + 1 : ℕ) : ℤ) + d.exponent)) := by
        rw [zpow_add₀ (by norm_num), zpow_add₀ (by norm_num)]
    _ ≤ 10 ^ (-7 : ℤ) := zpow_le_zpow_right₀ (by norm_num) (by push_cast; omega)
    _ < 1 / 2 := by norm_num

/-- **The double of a decimal is the one nearest to it.** -/
theorem rounds_toMagnitude (d : Decimal) : Magnitude.Rounds d.units d.toMagnitude := by
  have hround := Magnitude.rounds_ofRatio d.num d.den_pos
  rw [num_div_den] at hround
  unfold toMagnitude
  split
  · next hc =>
    refine ⟨0, ?_, rfl⟩
    have := Magnitude.nearest_units 0
    rwa [Magnitude.unitsOfRank_zero, Nat.cast_zero,
      show (0 : ℚ) = d.units by rw [units, hc, Nat.cast_zero, zero_mul, mul_zero]] at this
  split
  · next hc he =>
    obtain ⟨r, hr, -⟩ := hround
    refine ⟨r, hr, ?_⟩
    have := (Magnitude.nearest_units infinityRank).mono hr (infinity_le_units hc he)
    rw [Magnitude.ofRank, Magnitude.infinity, Magnitude.mk.injEq, Nat.min_eq_right this]
  split
  · next he =>
    refine ⟨0, ⟨fun s hs => by omega, Or.inl ?_⟩, rfl⟩
    have hmid : Magnitude.middle 0 = 1 / 2 := by
      rw [Magnitude.middle_eq, Magnitude.unitsOfRank_zero,
        Magnitude.step_of_lt ranksPerBinade_pos, Nat.cast_zero, Nat.cast_one, zero_add]
    rw [hmid]
    exact units_lt_half he
  · exact hround

/-- Decimals of one value have one double. -/
theorem toMagnitude_eq_of_units {d d' : Decimal} (h : d.units = d'.units) :
    d.toMagnitude = d'.toMagnitude :=
  d.rounds_toMagnitude.unique (h ▸ d'.rounds_toMagnitude)

/-- A decimal to which the value of a magnitude is the nearest has it for its double. -/
theorem toMagnitude_of_nearest {d : Decimal} {m : Magnitude}
    (h : Magnitude.Nearest d.units m.rank) : d.toMagnitude = m :=
  d.rounds_toMagnitude.unique ⟨m.rank, h, m.ofRank_rank.symm⟩

theorem units_trim (d : Decimal) : d.trim.units = d.units := by
  fun_induction trim d with
  | case1 d h ih =>
    have hc : d.coefficient = 10 * (d.coefficient / 10) :=
      (Nat.mul_div_cancel' (Nat.dvd_of_mod_eq_zero h.2)).symm
    rw [ih, units, units, zpow_add_one₀ (by norm_num)]
    conv_rhs => rw [hc]
    push_cast
    ring
  | case2 d h => rfl

end Decimal

end LispCore

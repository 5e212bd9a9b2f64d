/-
  LispCore — integers as numbers.

  An integer stands for the double nearest to it, if it is not too large, and everything
  that meets an integer draws the line in the same place.

  * `Magnitude.Nearest.dist_le`: no value is closer than that of the nearest rank;
  * `Magnitude.Nearest.lt_infinityRank_iff`: where the nearest rank is that of infinity;
  * `Double.rat?`, `Double.significand`: the value of a finite double, and the integer that
    is scaled by a power of two in it;
  * `Double.IsNearest`: a double is nearest to an integer, with ties going to even;
  * `Double.ofInt?_cases`, `Double.isNearest_of_nearest`: which integers have a double, and
    that it is nearest to them;
  * `Value.TakenFor`, `Value.Refused`: what is done with an integer that is a number, and
    with one that is not.
-/
import LispCore.Host
import LispCore.Proofs.Nearest
import LispCore.Proofs.Rendering
import LispCore.Value.Expect

namespace LispCore

namespace Magnitude

/-- **No value is closer than that of the nearest rank**, and where another one is as close
    the rank is even. -/
theorem Nearest.dist_le {q : ℚ} {r s : ℕ} (h : Nearest q r) (hs : s ≠ r) :
    |q - unitsOfRank r| ≤ |q - unitsOfRank s| ∧
      (|q - unitsOfRank r| = |q - unitsOfRank s| → Even r) := by
  have hmono {k l : ℕ} (hkl : k ≤ l) : (unitsOfRank k : ℚ) ≤ unitsOfRank l := by
    exact_mod_cast unitsOfRank_strictMono.monotone hkl
  rcases Nat.lt_or_gt_of_ne hs with hlt | hlt
  · -- the middle below `r` is at most `q`, and the other value is below that middle
    obtain ⟨t, rfl⟩ : ∃ t, r = t + 1 := ⟨r - 1, by omega⟩
    have hst := hmono (Nat.le_of_lt_succ hlt)
    have htr := hmono t.le_succ
    have hother : q - unitsOfRank s ≤ |q - unitsOfRank s| := le_abs_self _
    rcases h.below t rfl with hq | ⟨hq, heven⟩
    · have hclose : |q - unitsOfRank (t + 1)| < q - unitsOfRank s := by
        rw [middle] at hq
        have hstrict : (unitsOfRank t : ℚ) < unitsOfRank (t + 1) := by
          exact_mod_cast unitsOfRank_strictMono t.lt_succ_self
        rw [abs_lt]
        constructor <;> linarith
      exact ⟨(hclose.trans_le hother).le, fun he => absurd he (hclose.trans_le hother).ne⟩
    · refine ⟨?_, fun _ => heven⟩
      rw [middle] at hq
      refine le_trans ?_ hother
      rw [abs_le]
      constructor <;> linarith
  · have hrs := hmono (Nat.succ_le_of_lt hlt)
    have hother : unitsOfRank s - q ≤ |q - unitsOfRank s| := by
      rw [abs_sub_comm]
      exact le_abs_self _
    have hstrict : (unitsOfRank r : ℚ) < unitsOfRank (r + 1) := by
      exact_mod_cast unitsOfRank_strictMono r.lt_succ_self
    rcases h.above with hq | ⟨hq, heven⟩
    · have hclose : |q - unitsOfRank r| < unitsOfRank s - q := by
        rw [middle] at hq
        rw [abs_lt]
        constructor <;> linarith
      exact ⟨(hclose.trans_le hother).le, fun he => absurd he (hclose.trans_le hother).ne⟩
    · refine ⟨?_, fun _ => heven⟩
      rw [middle] at hq
      refine le_trans ?_ hother
      rw [abs_le]
      constructor <;> linarith

/-- Below the middle after an odd rank, and nowhere else, the nearest rank is at most that
    rank. -/
theorem Nearest.le_iff_of_odd {q : ℚ} {r s : ℕ} (h : Nearest q r) (hs : Odd s) :
    r ≤ s ↔ q < middle s := by
  constructor
  · intro hrs
    refine lt_of_le_of_ne (h.le_middle.trans (middle_strictMono.monotone hrs)) ?_
    intro hq
    -- a tie, which would have gone to the even rank
    have hr : middle r = middle s :=
      le_antisymm (middle_strictMono.monotone hrs) (hq ▸ h.le_middle)
    obtain rfl := middle_strictMono.injective hr
    rcases h.above with hlt | ⟨-, heven⟩
    · exact absurd hq hlt.ne
    · exact absurd heven (Nat.not_even_iff_odd.2 hs)
  · intro hq
    by_contra hrs
    exact absurd (h.middle_le (Nat.lt_of_not_le hrs)) (not_le.2 hq)

/-- The middle between the greatest finite value and the one that infinity counts as. -/
theorem middle_greatest :
    middle (infinityRank - 1) = unitsPerOne * ((2 : ℚ) ^ 1024 - 2 ^ 970) := by
  -- the exponents are kept symbolic where powers are cast
  obtain ⟨k, hk⟩ : ∃ k : ℕ, k = 1024 := ⟨_, rfl⟩
  obtain ⟨l, hl⟩ : ∃ l : ℕ, l = 970 := ⟨_, rfl⟩
  have hsum : unitsOfRank (infinityRank - 1) + unitsOfRank (infinityRank - 1 + 1) +
      2 * (unitsPerOne * 2 ^ l) = 2 * (unitsPerOne * 2 ^ k) := by
    subst hk hl
    decide +kernel
  have hcast : (unitsOfRank (infinityRank - 1) + unitsOfRank (infinityRank - 1 + 1) +
      2 * (unitsPerOne * 2 ^ l) : ℚ) = 2 * (unitsPerOne * 2 ^ k) := by exact_mod_cast hsum
  rw [middle, ← hk, ← hl]
  linarith

theorem Nearest.lt_infinityRank_iff {q : ℚ} {r : ℕ} (h : Nearest q r) :
    r < infinityRank ↔ q < unitsPerOne * ((2 : ℚ) ^ 1024 - 2 ^ 970) := by
  rw [← middle_greatest, ← h.le_iff_of_odd (by decide +kernel)]
  have : 0 < infinityRank := by decide
  omega

/-- The integer that is scaled by a power of two in a finite magnitude. -/
def significand (m : Magnitude) : ℕ :=
  if m.rank < ranksPerBinade then m.rank else ranksPerBinade + m.rank % ranksPerBinade

theorem units_eq_significand (m : Magnitude) :
    m.units = m.significand * 2 ^ (m.rank / ranksPerBinade - 1) := by
  unfold units unitsOfRank significand
  split
  · next h => rw [Nat.div_eq_of_lt h]; simp
  · rfl

theorem even_significand {m : Magnitude} : Even m.significand ↔ Even m.rank := by
  have hP : Even ranksPerBinade := by decide
  unfold significand
  split
  · rfl
  · rw [Nat.even_add, iff_true_left hP, Nat.even_iff, Nat.even_iff,
      Nat.mod_mod_of_dvd _ hP.two_dvd]

/-- The value of a finite magnitude. -/
def rat (m : Magnitude) : ℚ := m.units / unitsPerOne

theorem rat_nonneg (m : Magnitude) : 0 ≤ m.rat := by
  unfold rat
  positivity

theorem rank_eq_zero {m : Magnitude} (h : m.rat = 0) : m.rank = 0 := by
  have hU : (unitsPerOne : ℚ) ≠ 0 := by exact_mod_cast unitsPerOne_pos.ne'
  have hunits : m.units = 0 := by simpa [rat, hU] using h
  exact unitsOfRank_strictMono.injective (hunits.trans unitsOfRank_zero.symm)

/-- The distance of a value in units is that of the value, scaled. -/
theorem dist_units (a : ℚ) (m : Magnitude) :
    |unitsPerOne * a - m.units| = unitsPerOne * |a - m.rat| := by
  have hU : (0 : ℚ) < unitsPerOne := by exact_mod_cast unitsPerOne_pos
  rw [← abs_of_pos hU, ← abs_mul, abs_of_pos hU, mul_sub, rat, mul_div_cancel₀ _ hU.ne']

/-- No value is closer to what is rounded to a magnitude than that of the magnitude. -/
theorem dist_rat_le {a : ℚ} {m m' : Magnitude} (h : Nearest (unitsPerOne * a) m.rank)
    (hm : m'.rank ≠ m.rank) :
    |a - m.rat| ≤ |a - m'.rat| ∧ (|a - m.rat| = |a - m'.rat| → Even m.rank) := by
  have hU : (0 : ℚ) < unitsPerOne := by exact_mod_cast unitsPerOne_pos
  obtain ⟨hle, heven⟩ := h.dist_le hm
  change |_ - (m.units : ℚ)| ≤ |_ - (m'.units : ℚ)| at hle
  change |_ - (m.units : ℚ)| = |_ - (m'.units : ℚ)| → _ at heven
  rw [dist_units, dist_units] at hle heven
  exact ⟨le_of_mul_le_mul_left hle hU, fun he => heven (congrArg _ he)⟩

end Magnitude

/-! ## The double of an integer -/

namespace Double

/-- The value of a finite double. -/
def rat? : Double → Option ℚ
  | nan => none
  | signed negative size =>
    if size.isInfinite then none else some (if negative then -size.rat else size.rat)

/-- The integer that is scaled by a power of two in a finite double. -/
def significand : Double → ℕ
  | nan => 0
  | signed _ size => size.significand

/-- The double is nearest to the integer: it is finite and has the sign of the integer, no
    finite double is closer, and where one of another value is as close its significand is
    even. -/
structure IsNearest (n : ℤ) (x : Double) : Prop where
  sign : ∃ size, x = signed (n < 0) size
  closest : ∃ q, x.rat? = some q ∧ ∀ (y : Double) (q' : ℚ), y.rat? = some q' →
    |n - q| ≤ |n - q'| ∧ (|n - q| = |n - q'| → q' = q ∨ Even x.significand)

theorem rat?_signed {negative : Bool} {size : Magnitude} (h : size.isInfinite = false) :
    (signed negative size).rat? = some (if negative then -size.rat else size.rat) := by
  rw [rat?, h]
  rfl

theorem rat?_eq_some {x : Double} {q : ℚ} (h : x.rat? = some q) : ∃ negative size,
    x = signed negative size ∧ q = if negative then -size.rat else size.rat := by
  cases x with
  | nan => cases h
  | signed negative size =>
    refine ⟨negative, size, rfl, ?_⟩
    rw [rat?] at h
    by_cases hf : size.isInfinite
    · rw [if_pos hf] at h
      cases h
    · rw [if_neg hf] at h
      exact (Option.some.inj h).symm

/-- The absolute value of an integer is rounded. -/
theorem exists_nearest_ofInt (n : ℤ) : ∃ r, Magnitude.Nearest (unitsPerOne * |(n : ℚ)|) r ∧
    ofInt n = signed (n < 0) (.ofRank r) := by
  obtain ⟨r, hr, heq⟩ := Magnitude.rounds_ofRatio (unitsPerOne * n.natAbs) Nat.one_pos
  refine ⟨r, ?_, by rw [ofInt, heq]⟩
  rw [Nat.cast_one, div_one, Nat.cast_mul, Nat.cast_natAbs, Int.cast_abs] at hr
  exact hr

/-- **Integers have doubles up to the middle after the greatest one.** -/
theorem ofInt?_cases (n : ℤ) :
    (|n| < 2 ^ 1024 - 2 ^ 970 ∧ ∃ size : Magnitude, size.isInfinite = false ∧
      Magnitude.Nearest (unitsPerOne * |(n : ℚ)|) size.rank ∧
      ofInt? n = some (signed (n < 0) size)) ∨
    (2 ^ 1024 - 2 ^ 970 ≤ |n| ∧ ofInt? n = none) := by
  obtain ⟨r, hr, hx⟩ := exists_nearest_ofInt n
  have hline : r < infinityRank ↔ |n| < 2 ^ 1024 - 2 ^ 970 := by
    have hU : (0 : ℚ) < unitsPerOne := by exact_mod_cast unitsPerOne_pos
    rw [hr.lt_infinityRank_iff, mul_lt_mul_iff_right₀ hU]
    exact_mod_cast Iff.rfl
  have hrank : (Magnitude.ofRank r).rank = min r infinityRank := rfl
  rcases Nat.lt_or_ge r infinityRank with h | h
  · rw [Nat.min_eq_left h.le] at hrank
    have hfinite : (Magnitude.ofRank r).isInfinite = false := by
      simp [Magnitude.isInfinite, hrank, h.ne]
    refine Or.inl ⟨hline.1 h, .ofRank r, hfinite, ?_, ?_⟩
    · rw [hrank]
      exact hr
    · simp [ofInt?, hx, isFinite, hfinite]
  · rw [Nat.min_eq_right h] at hrank
    have hinfinite : (Magnitude.ofRank r).isInfinite = true := by
      simp [Magnitude.isInfinite, hrank]
    refine Or.inr ⟨not_lt.1 (mt hline.2 (Nat.not_lt.2 h)), ?_⟩
    simp [ofInt?, hx, isFinite, hinfinite]

/-- The distance of values of one sign is that of their absolute values. -/
theorem dist_of_sign (n : ℤ) (b : ℚ) :
    |(n : ℚ) - if n < 0 then -b else b| = |(|(n : ℚ)| - b)| := by
  split
  · next hn =>
    have hn : (n : ℚ) < 0 := by exact_mod_cast hn
    rw [abs_of_neg hn, abs_sub_comm]
    congr 1
    ring
  · next hn =>
    have hn : (0 : ℚ) ≤ n := by exact_mod_cast not_lt.1 hn
    rw [abs_of_nonneg hn]

/-- The distance of values of different signs is their sum. -/
theorem dist_of_other_sign {n : ℤ} {b : ℚ} (hb : 0 ≤ b) {negative : Bool}
    (h : negative ≠ decide (n < 0)) :
    |(n : ℚ) - if negative then -b else b| = |(n : ℚ)| + b := by
  rcases lt_or_ge n 0 with hn | hn
  · have hcast : (n : ℚ) < 0 := by exact_mod_cast hn
    obtain rfl : negative = false := by simpa [hn] using h
    rw [if_neg Bool.false_ne_true, abs_of_neg hcast, abs_of_neg (by linarith)]
    ring
  · have hcast : (0 : ℚ) ≤ n := by exact_mod_cast hn
    obtain rfl : negative = true := by simpa [not_lt.2 hn] using h
    rw [if_pos rfl, abs_of_nonneg hcast, abs_of_nonneg (by linarith)]
    ring

/-- Absolute values are no further from each other than the values. -/
theorem dist_abs_le (n : ℤ) {b : ℚ} (hb : 0 ≤ b) (negative : Bool) :
    |(|(n : ℚ)| - b)| ≤ |(n : ℚ) - if negative then -b else b| := by
  have habs : |(if negative then -b else b)| = b := by
    cases negative <;> simp [abs_of_nonneg hb]
  calc |(|(n : ℚ)| - b)| = |(|(n : ℚ)| - |(if negative then -b else b)|)| := by rw [habs]
    _ ≤ |(n : ℚ) - if negative then -b else b| := abs_abs_sub_abs_le _ _

/-- **The double that an integer is rounded to is nearest to it.** -/
theorem isNearest_of_nearest {n : ℤ} {size : Magnitude} (hf : size.isInfinite = false)
    (hr : Magnitude.Nearest (unitsPerOne * |(n : ℚ)|) size.rank) :
    IsNearest n (signed (n < 0) size) := by
  refine ⟨⟨size, rfl⟩, _, rat?_signed hf, ?_⟩
  simp only [decide_eq_true_eq]
  intro y q' hy
  obtain ⟨negative, m, rfl, rfl⟩ := rat?_eq_some hy
  have hother := dist_abs_le n m.rat_nonneg negative
  rw [dist_of_sign]
  rcases eq_or_ne m.rank size.rank with hrank | hrank
  · obtain rfl : m = size := by rw [← m.ofRank_rank, hrank, size.ofRank_rank]
    refine ⟨hother, fun htie => ?_⟩
    by_cases hsign : negative = decide (n < 0)
    · left
      rw [hsign]
      simp
    · -- the sum is the difference, so one of the two is zero, and then so is the rank
      rw [dist_of_other_sign m.rat_nonneg hsign] at htie
      have hzero : |(n : ℚ)| = 0 ∨ m.rat = 0 := by
        rcases abs_cases (|(n : ℚ)| - m.rat) with ⟨h, -⟩ | ⟨h, -⟩
        · right; linarith
        · left; linarith
      have hrank : m.rank = 0 := by
        rcases hzero with h | h
        · rw [h, mul_zero] at hr
          exact hr.eq_zero
        · exact Magnitude.rank_eq_zero h
      right
      exact Magnitude.even_significand.2 (hrank ▸ Even.zero)
  · obtain ⟨hle, heven⟩ := Magnitude.dist_rat_le hr hrank
    refine ⟨hle.trans hother, fun htie => ?_⟩
    right
    exact Magnitude.even_significand.2 (heven (le_antisymm hle (hother.trans_eq htie.symm)))

end Double

/-! ## What is done with an integer -/

/-- The number of bits of an integer. -/
theorem bitLength_eq {n : ℤ} {b : ℕ} (hl : 2 ^ b ≤ |n|) (hu : |n| < 2 ^ (b + 1)) :
    bitLength n = b + 1 := by
  have hl : 2 ^ b ≤ n.natAbs := by zify; exact hl
  have hu : n.natAbs < 2 ^ (b + 1) := by zify; exact hu
  have hn : n ≠ 0 := by
    rintro rfl
    exact absurd hl (by simp)
  rw [bitLength, if_neg hn, Nat.log2_eq_log_two, Nat.log_eq_of_pow_le_of_lt_pow hl hu]

namespace Value

/-- Everywhere an integer is taken for the number `x`. -/
structure TakenFor (n : ℤ) (x : Double) : Prop where
  expected : ∀ operator position, expectNumber operator position (integer n) = .ok x
  variant : (integer n).variant = .ok .number
  describe : (integer n).describe = "number"
  format : formatScalar? (integer n) = some (.ok (formatNumber x))
  text : ∀ mode limit, (integer n).text mode limit = .ok (formatNumber x)
  equal : ∀ limit, (integer n).equal limit (integer n) = .ok true

/-- Nowhere an integer is taken for a number, and the errors are these. -/
structure Refused (n : ℤ) : Prop where
  expected : ∀ operator position, ∃ e, expectNumber operator position (integer n) = .error e ∧
    e.kind = .type ∧ ∀ b : ℕ, 2 ^ b ≤ |n| → |n| < 2 ^ (b + 1) →
      e.message = s!"Integer of {b + 1} bits is too large for a number"
  variant : ∃ reason, (integer n).variant = .error reason ∧ (Error.noVariant reason).kind = .type
  describe : (integer n).describe = "int"
  format : formatScalar? (integer n) = some (.error .overflow)
  text : ∀ mode limit, ∃ e, (integer n).text mode limit = .error e ∧
    e.kind = .type ∧ e.message = "Cannot print int"
  equal : ∀ limit v, ∃ e, (integer n).equal limit v = .error e ∧ e.kind = .equality

section
variable {n : ℤ}

theorem takenFor_of_some {x : Double} (h : Double.ofInt? n = some x) : TakenFor n x where
  expected _ _ := by
    rw [expectNumber, widen_of_some h]
    rfl
  variant := by
    rw [Value.variant, widen_of_some h]
    rfl
  describe := by
    rw [Value.describe, Value.variant, widen_of_some h]
    rfl
  format := by simp [formatScalar?, h]
  text mode limit := by
    rw [Value.text, render, depthError?_of_le (Nat.zero_le limit) (Nat.zero_le _)]
    dsimp only
    rw [widen_of_some h]
  equal limit := by
    have halien : ¬ (integer n).Alien := by simp [Alien, h]
    obtain ⟨r, he, hr⟩ := equalAt_atoms (Nat.zero_le limit) (Nat.zero_le _) halien halien
      fun _ _ hn => by cases hn
    rw [Value.equal, he, hr.2 ((sameContent_integers halien halien).2 rfl)]

theorem refused_of_none (h : Double.ofInt? n = none) : Refused n where
  expected _ _ := by
    refine ⟨.noVariant (.oversized (bitLength n)), ?_, rfl, fun b hl hu => ?_⟩
    · rw [expectNumber, widen_of_none h]
      rfl
    · rw [bitLength_eq hl hu]
      rfl
  variant := by
    refine ⟨.oversized (bitLength n), ?_, rfl⟩
    rw [Value.variant, widen_of_none h]
    rfl
  describe := by
    rw [Value.describe, Value.variant, widen_of_none h]
    rfl
  format := by simp [formatScalar?, h]
  text mode limit := by
    refine ⟨.unprintable "int", ?_, rfl, rfl⟩
    rw [Value.text, render_atom (Nat.zero_le limit) (Nat.zero_le _) (by simp)]
    exact text_alien mode h
  equal limit v :=
    ⟨_, equalAt_alien_left (Nat.zero_le limit) (Nat.zero_le _) h, rfl⟩

end

/-- **An integer stands for the double nearest to it just below 2¹⁰²⁴ - 2⁹⁷⁰**, and whatever
    meets the integer draws the line there. -/
theorem integer_line (n : ℤ) :
    (|n| < 2 ^ 1024 - 2 ^ 970 ∧ ∃ x, Double.IsNearest n x ∧ TakenFor n x) ∨
    (2 ^ 1024 - 2 ^ 970 ≤ |n| ∧ Refused n) := by
  rcases Double.ofInt?_cases n with ⟨hn, size, hfinite, hr, h⟩ | ⟨hn, h⟩
  · exact Or.inl ⟨hn, _, Double.isNearest_of_nearest hfinite hr, takenFor_of_some h⟩
  · exact Or.inr ⟨hn, refused_of_none h⟩

/-- The two integers on both sides of the line. -/
example : (integer (2 ^ 1024 - 2 ^ 970 - 1)).describe = "number" ∧
    (integer (2 ^ 1024 - 2 ^ 970)).describe = "int" := by decide +kernel

end Value

end LispCore

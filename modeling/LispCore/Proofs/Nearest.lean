/-
  LispCore — rounding is to the nearest.

  Values are rational numbers of units here.

  * `Magnitude.Nearest q r`: the value of rank `r` is the one nearest to `q`, and
    `r` is even if another one is equally near.  Ranks go on beyond that of
    infinity as if the exponent had no bound;
  * `Nearest.mono`: greater values have greater nearest ranks, so that there is
    only one (`Nearest.unique`);
  * `Rounds q m`: the magnitude `m` is that of the nearest rank;
  * `rounds_ofRatio`: `Magnitude.ofRatio` rounds so.
-/
import LispCore.Double.Rounding
import LispCore.Proofs.ExactValue

namespace LispCore

namespace Magnitude

/-- The middle between the values of rank `r` and of the next one. -/
def middle (r : ℕ) : ℚ := (unitsOfRank r + unitsOfRank (r + 1)) / 2

/-- The value of rank `r` is nearest to `q`, ties going to the even rank. -/
structure Nearest (q : ℚ) (r : ℕ) : Prop where
  below : ∀ s, r = s + 1 → middle s < q ∨ middle s = q ∧ Even r
  above : q < middle r ∨ q = middle r ∧ Even r

/-- The magnitude nearest to `q`. -/
def Rounds (q : ℚ) (m : Magnitude) : Prop := ∃ r, Nearest q r ∧ m = ofRank r

theorem middle_eq (r : ℕ) : middle r = unitsOfRank r + (step r : ℚ) / 2 := by
  rw [middle, unitsOfRank_succ, Nat.cast_add]; ring

theorem middle_strictMono : StrictMono middle := by
  refine strictMono_nat_of_lt_succ ?_
  intro r
  have h₁ : (unitsOfRank r : ℚ) < unitsOfRank (r + 1) := by
    exact_mod_cast unitsOfRank_strictMono r.lt_succ_self
  have h₂ : (unitsOfRank (r + 1) : ℚ) < unitsOfRank (r + 1 + 1) := by
    exact_mod_cast unitsOfRank_strictMono (r + 1).lt_succ_self
  rw [middle, middle]
  linarith

theorem Nearest.middle_le {q : ℚ} {r s : ℕ} (h : Nearest q r) (hs : s < r) : middle s ≤ q := by
  obtain ⟨t, rfl⟩ : ∃ t, r = t + 1 := ⟨r - 1, by omega⟩
  refine (middle_strictMono.monotone (Nat.le_of_lt_succ hs)).trans ?_
  exact (h.below t rfl).elim le_of_lt fun h => h.1.le

theorem Nearest.le_middle {q : ℚ} {r : ℕ} (h : Nearest q r) : q ≤ middle r :=
  h.above.elim le_of_lt fun h => h.1.le

/-- **Rounding keeps the order.** -/
theorem Nearest.mono {q q' : ℚ} {r r' : ℕ} (h : Nearest q r) (h' : Nearest q' r') (hq : q ≤ q') :
    r ≤ r' := by
  by_contra hr
  have hlt := Nat.lt_of_not_le hr
  obtain ⟨t, rfl⟩ : ∃ t, r = t + 1 := ⟨r - 1, by omega⟩
  -- both values are the middle between two neighbours, which are both even
  have h₁ : middle r' ≤ middle t := middle_strictMono.monotone (Nat.le_of_lt_succ hlt)
  have h₂ := h.middle_le t.lt_succ_self
  have h₃ := h'.le_middle
  have ht : middle t = q := le_antisymm h₂ (by linarith)
  have hr' : q' = middle r' := le_antisymm h₃ (by linarith)
  have he : Even (t + 1) := (h.below t rfl).elim (fun h => absurd h (by rw [ht]; exact lt_irrefl q))
    fun h => h.2
  have he' : Even r' := h'.above.elim (fun h => absurd h (by rw [hr']; exact lt_irrefl _))
    fun h => h.2
  have : r' = t := middle_strictMono.injective (le_antisymm h₁ (by linarith))
  subst this
  exact (Nat.even_add_one.1 he) he'

theorem Nearest.unique {q : ℚ} {r r' : ℕ} (h : Nearest q r) (h' : Nearest q r') : r = r' :=
  le_antisymm (h.mono h' le_rfl) (h'.mono h le_rfl)

/-- Every value of a rank is nearest to itself. -/
theorem nearest_units (r : ℕ) : Nearest (unitsOfRank r) r := by
  have hstep : ∀ s, (0 : ℚ) < step s := fun s => by exact_mod_cast step_pos s
  constructor
  · rintro s rfl
    left
    have := hstep s
    rw [middle_eq, unitsOfRank_succ, Nat.cast_add]
    linarith
  · left
    have := hstep r
    rw [middle_eq]
    linarith

theorem Nearest.eq_zero {r : ℕ} (h : Nearest 0 r) : r = 0 := by
  have hzero := nearest_units 0
  rw [unitsOfRank_zero, Nat.cast_zero] at hzero
  exact h.unique hzero

theorem Rounds.unique {q : ℚ} {m m' : Magnitude} (h : Rounds q m) (h' : Rounds q m') : m = m' := by
  obtain ⟨r, hr, rfl⟩ := h
  obtain ⟨r', hr', rfl⟩ := h'
  rw [hr.unique hr']

theorem ofRank_rank (m : Magnitude) : ofRank m.rank = m := by
  cases m with
  | mk r hr => simp [ofRank, Nat.min_eq_left hr]

/-- A magnitude is nearest to its own value. -/
theorem rounds_units (m : Magnitude) : Rounds m.units m :=
  ⟨m.rank, nearest_units m.rank, (ofRank_rank m).symm⟩

/-! ## Rounding a quotient -/

/-- Rounding to an integer: at most half a step away, and even at exactly half. -/
theorem halfEven_spec (num : ℕ) {den : ℕ} (hden : 0 < den) :
    (2 * halfEven num den * den < 2 * num + den ∨
      2 * halfEven num den * den = 2 * num + den ∧ Even (halfEven num den)) ∧
    (2 * num < (2 * halfEven num den + 1) * den ∨
      2 * num = (2 * halfEven num den + 1) * den ∧ Even (halfEven num den)) := by
  have hdiv := Nat.div_add_mod num den
  have hmod := Nat.mod_lt num hden
  unfold halfEven
  dsimp only
  generalize num / den = low at *
  generalize num % den = part at *
  have hmul : 2 * low * den = 2 * (den * low) := by ring
  have hmul' : 2 * (low + 1) * den = 2 * (den * low) + 2 * den := by ring
  have hodd : ∀ t, (2 * t + 1) * den = 2 * t * den + den := fun t => by ring
  split_ifs with h₁ h₂ h₃
  · refine ⟨Or.inl ?_, Or.inl ?_⟩
    · rw [hmul]; omega
    · rw [hodd, hmul]; omega
  · refine ⟨Or.inl ?_, Or.inl ?_⟩
    · rw [hmul']; omega
    · rw [hodd, hmul']; omega
  · refine ⟨Or.inl ?_, Or.inr ⟨?_, Nat.even_iff.2 h₃⟩⟩
    · rw [hmul]; omega
    · rw [hodd, hmul]; omega
  · refine ⟨Or.inr ⟨?_, Nat.even_add_one.2 fun h => h₃ (Nat.even_iff.1 h)⟩, Or.inl ?_⟩
    · rw [hmul']; omega
    · rw [hodd, hmul']; omega

/-- How often the step is doubled for a quotient. -/
def doublings (num den : ℕ) : ℕ := Nat.log2 (num / den) - 52

/-- The rank that a quotient is rounded to. -/
def rankOfRatio (num den : ℕ) : ℕ :=
  ranksPerBinade * doublings num den + halfEven num (den * 2 ^ doublings num den)

theorem ofRatio_eq (num den : ℕ) : ofRatio num den = ofRank (rankOfRatio num den) := by
  unfold ofRatio; rfl

/-- With its step doubled so often a quotient counts less than 2⁵³ steps, and at least
    2⁵² unless the step is the least one. -/
theorem doublings_bounds (num : ℕ) {den : ℕ} (hden : 0 < den) :
    num < 2 * ranksPerBinade * (den * 2 ^ doublings num den) ∧
      (0 < doublings num den → ranksPerBinade * (den * 2 ^ doublings num den) ≤ num) := by
  have hlog : num / den < 2 ^ (Nat.log2 (num / den) + 1) := Nat.lt_log2_self
  constructor
  · have hle : 2 ^ (Nat.log2 (num / den) + 1) ≤ 2 ^ (53 + doublings num den) :=
      Nat.pow_le_pow_right Nat.two_pos (by unfold doublings; omega)
    have := (Nat.div_lt_iff_lt_mul hden).1 (Nat.lt_of_lt_of_le hlog hle)
    calc num < 2 ^ (53 + doublings num den) * den := this
      _ = 2 * ranksPerBinade * (den * 2 ^ doublings num den) := by
        rw [ranksPerBinade_eq, Nat.pow_add]; ring
  · intro hpos
    have hne : num / den ≠ 0 := by
      intro h; simp [doublings, h] at hpos
    have hle := Nat.log2_self_le hne
    have hk : Nat.log2 (num / den) = 52 + doublings num den := by unfold doublings at *; omega
    rw [hk] at hle
    calc ranksPerBinade * (den * 2 ^ doublings num den)
        = 2 ^ (52 + doublings num den) * den := by
          rw [ranksPerBinade_eq, Nat.pow_add]; ring
      _ ≤ num := (Nat.le_div_iff_mul_le hden).1 hle

/-- Counted in steps that have been doubled `k` times, the values of the binade that has
    this step, its lower and its upper end included, are the whole numbers up to 2⁵³. -/
theorem unitsOfRank_steps {k s : ℕ} (hlow : 0 < k → ranksPerBinade ≤ s)
    (hs : s ≤ 2 * ranksPerBinade) : unitsOfRank (ranksPerBinade * k + s) = s * 2 ^ k := by
  have hP := ranksPerBinade_pos
  rcases Nat.lt_or_ge s ranksPerBinade with h | h
  · obtain rfl : k = 0 := by by_contra hk; have := hlow (by omega); omega
    rw [Nat.mul_zero, Nat.zero_add, unitsOfRank_of_lt h, Nat.pow_zero, Nat.mul_one]
  · obtain ⟨t, rfl⟩ := Nat.exists_eq_add_of_le h
    rcases Nat.lt_or_eq_of_le (show t ≤ ranksPerBinade by omega) with ht | rfl
    · rw [show ranksPerBinade * k + (ranksPerBinade + t) = (k + 1) * ranksPerBinade + t by ring,
        unitsOfRank_binade ht]
    · rw [show ranksPerBinade * k + (ranksPerBinade + ranksPerBinade) =
        (k + 1 + 1) * ranksPerBinade + 0 by ring, unitsOfRank_binade hP, Nat.pow_succ]
      ring

theorem le_step_steps {k s : ℕ} (hlow : 0 < k → ranksPerBinade ≤ s) :
    2 ^ k ≤ step (ranksPerBinade * k + s) := by
  refine Nat.pow_le_pow_right Nat.two_pos ?_
  rw [Nat.mul_add_div ranksPerBinade_pos]
  rcases Nat.eq_zero_or_pos k with rfl | hk
  · exact Nat.zero_le _
  · have : 1 ≤ s / ranksPerBinade := (Nat.one_le_div_iff ranksPerBinade_pos).2 (hlow hk)
    omega

theorem even_steps {k s : ℕ} (h : Even s) : Even (ranksPerBinade * k + s) :=
  ((show Even ranksPerBinade by decide).mul_right k).add h

/-- **`Magnitude.ofRatio` rounds to the nearest magnitude.** -/
theorem nearest_rankOfRatio (num : ℕ) {den : ℕ} (hden : 0 < den) :
    Nearest (num / den) (rankOfRatio num den) := by
  obtain ⟨hub, hlb⟩ := doublings_bounds num hden
  unfold rankOfRatio
  generalize doublings num den = k at *
  have hD : 0 < den * 2 ^ k := Nat.mul_pos hden (Nat.two_pow_pos k)
  obtain ⟨hlow, hup⟩ := halfEven_spec num hD
  generalize halfEven num (den * 2 ^ k) = s at *
  have hs : s ≤ 2 * ranksPerBinade := by
    have : 2 * s * (den * 2 ^ k) ≤ 2 * num + den * 2 ^ k := hlow.elim le_of_lt fun h => h.1.le
    by_contra hs
    have := Nat.mul_le_mul_right (den * 2 ^ k) (show 4 * ranksPerBinade + 2 ≤ 2 * s by omega)
    linarith
  have hPs : 0 < k → ranksPerBinade ≤ s := by
    intro hk
    have h₁ := hlb hk
    have : 2 * num ≤ (2 * s + 1) * (den * 2 ^ k) := hup.elim le_of_lt fun h => h.1.le
    by_contra hs
    have := Nat.mul_le_mul_right (den * 2 ^ k) (show 2 * s + 2 ≤ 2 * ranksPerBinade by omega)
    linarith
  have hu := unitsOfRank_steps hPs hs
  have hden' : (0 : ℚ) < den := by exact_mod_cast hden
  have hr : ∀ a : ℚ, (num : ℚ) / den < a ↔ (num : ℚ) < a * den := fun a => div_lt_iff₀ hden'
  have hl : ∀ a : ℚ, a < (num : ℚ) / den ↔ a * den < num := fun a => lt_div_iff₀ hden'
  have he : ∀ a : ℚ, (num : ℚ) / den = a ↔ (num : ℚ) = a * den := fun a => div_eq_iff hden'.ne'
  constructor
  · intro r' hr'
    by_cases hlowest : 0 < k ∧ s = ranksPerBinade
    · -- the rank below has a smaller step, but the quotient is not below its own rank
      left
      have h₁ : middle r' < unitsOfRank (r' + 1) := by
        have : (unitsOfRank r' : ℚ) < unitsOfRank (r' + 1) := by
          exact_mod_cast unitsOfRank_strictMono r'.lt_succ_self
        rw [middle]; linarith
      rw [← hr', hu, hlowest.2] at h₁
      have h₂ : (ranksPerBinade * 2 ^ k * den : ℚ) ≤ num := by
        have := hlb hlowest.1
        exact_mod_cast (by linarith : ranksPerBinade * 2 ^ k * den ≤ num)
      refine h₁.trans_le ((le_div_iff₀ hden').2 ?_)
      push_cast; exact h₂
    · obtain ⟨t, rfl⟩ : ∃ t, s = t + 1 := by
        refine ⟨s - 1, ?_⟩
        rcases Nat.eq_zero_or_pos k with rfl | hk
        · omega
        · have := hPs hk; have := ranksPerBinade_pos; omega
      obtain rfl : ranksPerBinade * k + t = r' := by omega
      have hu' := unitsOfRank_steps (k := k) (s := t)
        (fun hk => by have := hPs hk; omega) (by omega)
      rw [middle, Nat.add_assoc, hu, hu']
      push_cast at *
      rcases hlow with h | ⟨h, hev⟩
      · left
        rw [hl]
        have : (2 * (t + 1) * (den * 2 ^ k) : ℚ) < 2 * num + den * 2 ^ k := by exact_mod_cast h
        linarith
      · right
        refine ⟨((he _).2 ?_).symm, even_steps hev⟩
        have : (2 * (t + 1) * (den * 2 ^ k) : ℚ) = 2 * num + den * 2 ^ k := by exact_mod_cast h
        linarith
  · have hstep : (2 ^ k : ℚ) ≤ step (ranksPerBinade * k + s) := by exact_mod_cast le_step_steps hPs
    have hden'' := mul_le_mul_of_nonneg_left hstep hden'.le
    rw [middle_eq, hu]
    push_cast
    rcases hup with h | ⟨h, hev⟩
    · left
      rw [hr]
      have : (2 * num : ℚ) < (2 * s + 1) * (den * 2 ^ k) := by exact_mod_cast h
      linarith
    · have : (2 * num : ℚ) = (2 * s + 1) * (den * 2 ^ k) := by exact_mod_cast h
      rcases hstep.lt_or_eq with hlt | heq
      · left
        have := mul_lt_mul_of_pos_left hlt hden'
        rw [hr]; linarith
      · right
        refine ⟨(he _).2 ?_, even_steps hev⟩
        rw [← heq]; linarith

theorem rounds_ofRatio (num : ℕ) {den : ℕ} (hden : 0 < den) :
    Rounds (num / den) (ofRatio num den) :=
  ⟨rankOfRatio num den, nearest_rankOfRatio num hden, ofRatio_eq num den⟩

/-- A whole number of units is rounded to the magnitude that has it for its value. -/
theorem ofRatio_units {m : Magnitude} {u : ℕ} (h : u = m.units) : ofRatio u 1 = m := by
  have hr := rounds_ofRatio u Nat.one_pos
  rw [h, Nat.cast_one, div_one] at hr
  exact h ▸ hr.unique (rounds_units m)

end Magnitude

/-! ## Integers -/

namespace Double

theorem ofInt?_eq_some {n : ℤ} {x : Double} (h : ofInt? n = some x) : ofInt n = x := by
  unfold ofInt? at h
  dsimp only at h
  split at h
  · exact Option.some.inj h
  · cases h

theorem value?_signed {negative : Bool} {size : Magnitude} (h : size.isInfinite = false) :
    (signed negative size).value? =
      some (((if negative then -(size.units : ℤ) else size.units : ℤ) : WithTop ℤ) : Exact) := by
  rw [value?, h]; rfl

/-- An integer that is the exact value of a double is rounded to that value. -/
theorem ofInt_value? {n : ℤ} {x : Double} (h : x.value? = some (exactOfInt n)) :
    (ofInt n).value? = some (exactOfInt n) := by
  cases x with
  | nan => cases h
  | signed negative size =>
    cases hf : size.isInfinite with
    | true =>
      rw [value?, hf] at h
      have h := Option.some.inj h
      cases negative with
      | false => exact absurd h.symm (exactOfInt_ne_top n)
      | true => exact absurd h.symm (exactOfInt_ne_bot n)
    | false =>
      rw [value?_signed hf, Option.some.injEq, exactOfInt, WithBot.coe_inj, WithTop.coe_inj] at h
      have hu : unitsPerOne * n.natAbs = size.units := by
        have := congrArg Int.natAbs h
        rw [Int.natAbs_mul, Int.natAbs_natCast, apply_ite Int.natAbs, Int.natAbs_neg, ite_self,
          Int.natAbs_natCast] at this
        rw [this, Nat.mul_comm]
      rw [ofInt, Magnitude.ofRatio_units hu, value?_signed hf, exactOfInt, ← hu]
      push_cast
      by_cases hn : n < 0
      · simp only [hn, decide_true, ↓reduceIte, abs_of_neg hn]; congr 3; ring
      · simp only [hn, decide_false, Bool.false_eq_true, ↓reduceIte, abs_of_nonneg (not_lt.1 hn)]
        congr 3; ring

/-- An integer that is the exact value of some double is that of the double it stands
    for. -/
theorem ofInt?_of_equalInt {n : ℤ} {x : Double} (h : x.equalInt n = true) :
    ofInt? n = some (ofInt n) ∧ (ofInt n).equalInt n = true := by
  have hvalue := ofInt_value? (equalInt_iff.1 h)
  refine ⟨if_pos ?_, equalInt_iff.2 hvalue⟩
  cases hx : ofInt n with
  | nan => rw [hx] at hvalue; cases hvalue
  | signed negative size =>
    rw [hx, value?] at hvalue
    split at hvalue
    · cases negative with
      | false => exact absurd (Option.some.inj hvalue).symm (exactOfInt_ne_top n)
      | true => exact absurd (Option.some.inj hvalue).symm (exactOfInt_ne_bot n)
    · next hf => simp [isFinite, hf]

end Double

end LispCore

/-
  LispCore — exact values of numbers.

  * `Magnitude.unitsOfRank_succ`: the step from one magnitude to the next, from
    which `Magnitude.unitsOfRank_strictMono`: ranks are ordered as the values
    that they stand for;
  * `Double.value?`: the exact value of a double, infinities included;
  * `Double.less_iff`, `Double.atMost_iff`, `Double.equal_iff`,
    `Double.equalInt_iff`: doubles compare as their exact values, with each other
    and with integers.
-/
import Mathlib
import LispCore.Double.Basic

namespace LispCore

theorem ranksPerBinade_eq : ranksPerBinade = 2 ^ 52 := by decide

theorem ranksPerBinade_pos : 0 < ranksPerBinade := by decide

theorem unitsPerOne_pos : 0 < unitsPerOne := by decide +kernel

namespace Magnitude

/-- How many units the magnitude of rank `r` lies below the next one. -/
def step (r : Nat) : Nat := 2 ^ (r / ranksPerBinade - 1)

theorem step_pos (r : Nat) : 0 < step r := Nat.two_pow_pos _

theorem binade_div {k s : Nat} (hs : s < ranksPerBinade) :
    (k * ranksPerBinade + s) / ranksPerBinade = k := by
  rw [Nat.mul_comm, Nat.mul_add_div ranksPerBinade_pos, Nat.div_eq_of_lt hs, Nat.add_zero]

/-- The value of a rank, by its binade, counted from zero after the lowest one, and
    its place there. -/
theorem unitsOfRank_binade {k s : Nat} (hs : s < ranksPerBinade) :
    unitsOfRank ((k + 1) * ranksPerBinade + s) = (ranksPerBinade + s) * 2 ^ k := by
  have hle : ranksPerBinade ≤ (k + 1) * ranksPerBinade := Nat.le_mul_of_pos_left _ k.succ_pos
  rw [unitsOfRank, if_neg (by omega), binade_div hs, Nat.mul_add_mod_self_right,
    Nat.mod_eq_of_lt hs]
  rfl

theorem unitsOfRank_of_lt {r : Nat} (h : r < ranksPerBinade) : unitsOfRank r = r := if_pos h

/-- Every rank is in the lowest binade or in a later one. -/
theorem rank_cases (r : Nat) : r < ranksPerBinade ∨
    ∃ k s, s < ranksPerBinade ∧ r = (k + 1) * ranksPerBinade + s := by
  rcases Nat.lt_or_ge r ranksPerBinade with h | h
  · exact Or.inl h
  · refine Or.inr ⟨r / ranksPerBinade - 1, r % ranksPerBinade, Nat.mod_lt _ ranksPerBinade_pos, ?_⟩
    have : 1 ≤ r / ranksPerBinade := (Nat.one_le_div_iff ranksPerBinade_pos).2 h
    rw [Nat.sub_add_cancel this, Nat.mul_comm, Nat.div_add_mod]

theorem step_of_lt {r : Nat} (h : r < ranksPerBinade) : step r = 1 := by
  rw [step, Nat.div_eq_of_lt h]; rfl

theorem step_binade {k s : Nat} (hs : s < ranksPerBinade) :
    step ((k + 1) * ranksPerBinade + s) = 2 ^ k := by
  rw [step, binade_div hs]; rfl

theorem unitsOfRank_succ (r : Nat) : unitsOfRank (r + 1) = unitsOfRank r + step r := by
  have hP := ranksPerBinade_pos
  rcases rank_cases r with h | ⟨k, s, hs, rfl⟩
  · rw [unitsOfRank_of_lt h, step_of_lt h]
    rcases Nat.lt_or_eq_of_le (Nat.succ_le_of_lt h) with h' | h'
    · exact unitsOfRank_of_lt h'
    · have := unitsOfRank_binade (k := 0) hP
      simp only [Nat.zero_add, Nat.one_mul, Nat.add_zero, Nat.pow_zero, Nat.mul_one] at this
      rw [show r + 1 = ranksPerBinade from h', this]
  · rw [unitsOfRank_binade hs, step_binade hs, ← Nat.succ_mul, Nat.add_assoc]
    rcases Nat.lt_or_eq_of_le (Nat.succ_le_of_lt hs) with h' | h'
    · rw [unitsOfRank_binade h']; rfl
    · have := unitsOfRank_binade (k := k + 1) hP
      rw [Nat.add_zero, Nat.add_zero] at this
      rw [show s + 1 = ranksPerBinade from h', ← Nat.succ_mul, this, Nat.pow_succ,
        show (ranksPerBinade + s).succ = 2 * ranksPerBinade by omega]
      ac_rfl

theorem unitsOfRank_strictMono : StrictMono unitsOfRank :=
  strictMono_nat_of_lt_succ fun r => by
    rw [unitsOfRank_succ]
    exact Nat.lt_add_of_pos_right (step_pos r)

theorem unitsOfRank_zero : unitsOfRank 0 = 0 := unitsOfRank_of_lt ranksPerBinade_pos

end Magnitude

/-! ## Exact values -/

/-- An exact value in units of 2⁻¹⁰⁷⁴, or an infinity. -/
abbrev Exact := WithBot (WithTop ℤ)

namespace Double

/-- The exact value of a double. -/
def value? : Double → Option Exact
  | nan => none
  | signed negative size =>
    if size.isInfinite then some (if negative then ⊥ else ⊤)
    else some (((if negative then -(size.units : ℤ) else size.units : ℤ) : WithTop ℤ) : Exact)

/-- The exact value of the double at a place in the order of doubles. -/
def exactOfPlace (p : ℤ) : Exact :=
  if p = infinityRank then ⊤
  else if p = -(infinityRank : ℤ) then ⊥
  else ((p.sign * Magnitude.unitsOfRank p.natAbs : ℤ) : WithTop ℤ)

theorem value?_eq (x : Double) : x.value? = x.place?.map exactOfPlace := by
  cases x with
  | nan => rfl
  | signed negative size =>
    obtain ⟨r, hr⟩ := size
    have hI : (0 : ℤ) < infinityRank := by decide
    simp only [value?, place?, Magnitude.isInfinite, Magnitude.units, beq_iff_eq, exactOfPlace,
      Option.map_some, ← apply_ite some, Option.some.injEq]
    by_cases h : r = infinityRank
    · subst h
      cases negative
      · simp
      · simp only [↓reduceIte]
        rw [if_neg (by omega)]
    · have h' : (r : ℤ) ≠ infinityRank := by exact_mod_cast h
      cases negative
      · simp only [Bool.false_eq_true, ↓reduceIte, h, h']
        rw [if_neg (by omega), Int.natAbs_natCast]
        rcases r.eq_zero_or_pos with rfl | hp
        · simp [Magnitude.unitsOfRank_zero]
        · rw [Int.sign_natCast_of_ne_zero hp.ne', one_mul]
      · simp only [↓reduceIte, h, neg_inj, h']
        rw [if_neg (by omega), Int.natAbs_neg, Int.natAbs_natCast, Int.sign_neg]
        rcases r.eq_zero_or_pos with rfl | hp
        · simp [Magnitude.unitsOfRank_zero]
        · rw [Int.sign_natCast_of_ne_zero hp.ne', neg_one_mul]

theorem signedUnits_strictMono :
    StrictMono fun p : ℤ => p.sign * (Magnitude.unitsOfRank p.natAbs : ℤ) := by
  have key : ∀ m n : ℕ, m < n →
      (Magnitude.unitsOfRank m : ℤ) < (Magnitude.unitsOfRank n : ℤ) :=
    fun m n h => Int.ofNat_lt.2 (Magnitude.unitsOfRank_strictMono h)
  have value (n : ℕ) : (n : ℤ).sign * (Magnitude.unitsOfRank n : ℤ) = Magnitude.unitsOfRank n := by
    rcases n.eq_zero_or_pos with rfl | hn
    · simp [Magnitude.unitsOfRank_zero]
    · rw [Int.sign_natCast_of_ne_zero hn.ne', one_mul]
  intro p q hpq
  obtain ⟨m, rfl | rfl⟩ := p.eq_nat_or_neg <;> obtain ⟨n, rfl | rfl⟩ := q.eq_nat_or_neg <;>
    simp only [Int.natAbs_neg, Int.natAbs_natCast, Int.sign_neg, neg_mul, value]
  · exact key m n (by omega)
  · omega
  · rcases Nat.eq_zero_or_pos n with rfl | hn
    · have := key 0 m (by omega)
      rw [Magnitude.unitsOfRank_zero] at *
      omega
    · have := key 0 n hn
      rw [Magnitude.unitsOfRank_zero] at this
      omega
  · have := key n m (by omega)
    omega

theorem exactOfPlace_lt {p q : ℤ} (hp : -(infinityRank : ℤ) ≤ p) (hq : q ≤ infinityRank)
    (h : p < q) : exactOfPlace p < exactOfPlace q := by
  have hI : (0 : ℤ) < infinityRank := by decide
  have hpI : p ≠ infinityRank := by omega
  have hqI : q ≠ -(infinityRank : ℤ) := by omega
  rw [exactOfPlace, exactOfPlace, if_neg hpI, if_neg hqI]
  by_cases h₁ : p = -(infinityRank : ℤ) <;> by_cases h₂ : q = infinityRank
  · rw [if_pos h₁, if_pos h₂]; exact bot_lt_top
  · rw [if_pos h₁, if_neg h₂]; exact WithBot.bot_lt_coe _
  · rw [if_neg h₁, if_pos h₂]; exact WithBot.coe_lt_coe.2 (WithTop.coe_lt_top _)
  · rw [if_neg h₁, if_neg h₂, WithBot.coe_lt_coe, WithTop.coe_lt_coe]
    exact signedUnits_strictMono h

theorem place?_bounds {x : Double} {p : ℤ} (h : x.place? = some p) :
    -(infinityRank : ℤ) ≤ p ∧ p ≤ infinityRank := by
  cases x with
  | nan => cases h
  | signed negative size =>
    have := size.rank_le
    simp only [place?, Option.some.injEq] at h
    subst h
    split <;> omega

theorem exactOfPlace_strictMonoOn :
    StrictMonoOn exactOfPlace (Set.Icc (-(infinityRank : ℤ)) infinityRank) :=
  fun _ hp _ hq h => exactOfPlace_lt hp.1 hq.2 h

/-- A double that is a number has a place, and the exact value that goes with it. -/
theorem value?_eq_some {x : Double} {a : Exact} (h : x.value? = some a) :
    ∃ p, x.place? = some p ∧ p ∈ Set.Icc (-(infinityRank : ℤ)) infinityRank ∧
      exactOfPlace p = a := by
  rw [value?_eq, Option.map_eq_some_iff] at h
  obtain ⟨p, hp, ha⟩ := h
  exact ⟨p, hp, place?_bounds hp, ha⟩

theorem value?_isSome {x : Double} : x.value?.isSome ↔ x ≠ nan := by
  cases x with
  | nan => simp [value?]
  | signed negative size => simp only [value?]; split <;> simp

section
variable {x y : Double} {a b : Exact} (hx : x.value? = some a) (hy : y.value? = some b)
include hx hy

/-- **Doubles are ordered as their exact values.** -/
theorem less_iff : x.less y = true ↔ a < b := by
  obtain ⟨p, hp, hpI, rfl⟩ := value?_eq_some hx
  obtain ⟨q, hq, hqI, rfl⟩ := value?_eq_some hy
  rw [less, hp, hq, exactOfPlace_strictMonoOn.lt_iff_lt hpI hqI]
  exact decide_eq_true_iff

theorem atMost_iff : x.atMost y = true ↔ a ≤ b := by
  obtain ⟨p, hp, hpI, rfl⟩ := value?_eq_some hx
  obtain ⟨q, hq, hqI, rfl⟩ := value?_eq_some hy
  rw [atMost, hp, hq, exactOfPlace_strictMonoOn.le_iff_le hpI hqI]
  exact decide_eq_true_iff

theorem equal_iff_exact : x.equal y = true ↔ a = b := by
  obtain ⟨p, hp, hpI, rfl⟩ := value?_eq_some hx
  obtain ⟨q, hq, hqI, rfl⟩ := value?_eq_some hy
  rw [equal, hp, hq, exactOfPlace_strictMonoOn.injOn.eq_iff hpI hqI]
  exact beq_iff_eq

end

/-- The exact value of an integer. -/
def exactOfInt (n : ℤ) : Exact := ((n * unitsPerOne : ℤ) : WithTop ℤ)

theorem exactOfInt_inj {m n : ℤ} : exactOfInt m = exactOfInt n ↔ m = n := by
  have : (unitsPerOne : ℤ) ≠ 0 := Int.natCast_ne_zero.2 unitsPerOne_pos.ne'
  rw [exactOfInt, exactOfInt, WithBot.coe_inj, WithTop.coe_inj, mul_left_inj' this]

theorem exactOfInt_ne_top (n : ℤ) : exactOfInt n ≠ ⊤ :=
  fun h => WithTop.coe_ne_top (WithBot.coe_inj.1 h)

theorem exactOfInt_ne_bot (n : ℤ) : exactOfInt n ≠ ⊥ := WithBot.coe_ne_bot

/-- Doubles are equal as their exact values, and `nan` is equal to nothing. -/
theorem equal_iff {x y : Double} :
    x.equal y = true ↔ ∃ a, x.value? = some a ∧ y.value? = some a := by
  cases hx : x.value? with
  | none => rw [value?_eq, Option.map_eq_none_iff] at hx; simp [equal, hx]
  | some a =>
    cases hy : y.value? with
    | none => rw [value?_eq, Option.map_eq_none_iff] at hy; simp [equal, hy]
    | some b => rw [equal_iff_exact hx hy]; simp [eq_comm]

/-- A double is equal to an integer if that is its exact value. -/
theorem equalInt_iff {x : Double} {n : ℤ} :
    x.equalInt n = true ↔ x.value? = some (exactOfInt n) := by
  cases x with
  | nan => exact iff_of_false Bool.false_ne_true (Option.some_ne_none _).symm
  | signed negative size =>
    rw [equalInt, beq_iff_eq, units?, value?]
    split
    · refine iff_of_false (Option.some_ne_none _).symm ?_
      intro h
      have h := Option.some.inj h
      cases negative with
      | false => exact exactOfInt_ne_top n h.symm
      | true => exact exactOfInt_ne_bot n h.symm
    · rw [Option.some.injEq, Option.some.injEq, exactOfInt, WithBot.coe_inj, WithTop.coe_inj]

end Double

end LispCore

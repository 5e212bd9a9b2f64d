/-
  LispCore — the text of a number is the shortest one.

  * `Decimal.firstExponent_bounds`, `Decimal.exponent_mem_text`: the exponent of the first
    digit, and when it is written;
  * `Decimal.not_pointZero_text`: a decimal without trailing zeros does not end in a point
    and a zero;
  * `IsShortestText`: a text is read as the double, and no literal of it has fewer digits;
  * `formatNumber_shortest`: the text of every finite double is such a text, and different
    doubles have different texts.
-/
import LispCore.Proofs.SignificantDigits
import LispCore.Value.Printer

namespace LispCore

theorem length_digits (n : ℕ) : (digits n).length = digitCount n := by
  fun_induction digits n with
  | case1 n h => rw [digitCount, if_pos h]; rfl
  | case2 n h ih => rw [digitCount, if_neg h, List.length_append, ih]; rfl

theorem getLast?_digits (n : ℕ) : (digits n).getLast? = some (digitChar (n % 10)) := by
  unfold digits
  split
  · next h => rw [Nat.mod_eq_of_lt h]; rfl
  · exact List.getLast?_concat

namespace Decimal

/-- The value of a decimal. -/
def rat (d : Decimal) : ℚ := d.coefficient * (10 : ℚ) ^ d.exponent

theorem rat_eq_of_units {d d' : Decimal} (h : d.units = d'.units) : d.rat = d'.rat := by
  have hU : (unitsPerOne : ℚ) ≠ 0 := by exact_mod_cast unitsPerOne_pos.ne'
  exact mul_left_cancel₀ hU h

/-- The first digit is worth the greatest power of ten that is not above the value. -/
theorem firstExponent_bounds {d : Decimal} (h : 0 < d.coefficient) :
    (10 : ℚ) ^ d.firstExponent ≤ d.rat ∧ d.rat < (10 : ℚ) ^ (d.firstExponent + 1) := by
  have hten : (10 : ℚ) ≠ 0 := by norm_num
  have hlow := pow_digitCount_le h
  have hhigh := lt_pow_digitCount d.coefficient
  have hcount := length_digits_pos d.coefficient
  rw [firstExponent, rat]
  rw [length_digits] at hcount ⊢
  generalize digitCount d.coefficient = count at *
  constructor
  · rw [show d.exponent + (count : ℤ) - 1 = ((count - 1 : ℕ) : ℤ) + d.exponent by omega,
      zpow_add₀ hten, zpow_natCast]
    gcongr
    exact_mod_cast hlow
  · rw [show d.exponent + (count : ℤ) - 1 + 1 = (count : ℤ) + d.exponent by omega,
      zpow_add₀ hten, zpow_natCast]
    gcongr
    exact_mod_cast hhigh

/-- **The exponent is written just if the first digit is too far from the point.** -/
theorem exponent_mem_text (format : NumberFormat) (d : Decimal) : 'e' ∈ d.text format ↔
    d.firstExponent < format.least ∨ format.bound ≤ d.firstExponent := by
  have hoff : (d.firstExponent < format.least ∨ format.bound ≤ d.firstExponent) ↔
      ¬ (format.least ≤ d.firstExponent ∧ d.firstExponent < format.bound) := by
    rw [not_and_or, not_le, not_lt]
  rw [hoff]
  unfold text
  split
  · next h =>
    refine iff_of_false ?_ (not_not.2 h)
    intro he
    rcases mem_positionalText he with ⟨k, hk, he⟩ | he
    · exact ne_digitChar rfl hk he
    · exact absurd he (by decide)
  · next h =>
    refine iff_of_true ?_ h
    unfold scientificText
    simp

/-- A positional text with a point ends in the last digit. -/
theorem getLast?_positionalText {d : Decimal} (h : d.exponent < 0) :
    d.positionalText.getLast? = some (digitChar (d.coefficient % 10)) := by
  have hlen := length_digits_pos d.coefficient
  unfold positionalText
  dsimp only
  rw [if_neg (not_le.2 h)]
  split
  · next hfirst =>
    have hrest : (d.firstExponent + 1).toNat < (digits d.coefficient).length := by
      rw [firstExponent] at *
      omega
    rw [List.getLast?_append_of_ne_nil _ (List.cons_ne_nil _ _),
      List.getLast?_cons_of_ne_nil (by rw [Ne, List.drop_eq_nil_iff]; omega),
      List.getLast?_drop, if_neg (not_le.2 hrest), getLast?_digits]
  · rw [List.getLast?_append_of_ne_nil _ (digits_ne_nil _), getLast?_digits]

theorem point_not_mem_exponentText (format : NumberFormat) (e : ℤ) :
    '.' ∉ 'e' :: format.exponentText e := by
  intro h
  rcases List.mem_cons.1 h with h | h
  · exact absurd h (by decide)
  rcases mem_exponentText h with ⟨k, hk, h⟩ | h
  · exact ne_digitChar rfl hk h
  · exact absurd h (by decide)

/-- **A decimal without trailing zeros does not end in a point and a zero.** -/
theorem not_pointZero_text (format : NumberFormat) {d : Decimal} (h : d.coefficient % 10 ≠ 0) :
    ¬ ['.', '0'] <:+ d.text format := by
  have hzero : ∀ k < 10, '0' = digitChar k → k = 0 := by decide
  intro hsuffix
  unfold text at hsuffix
  split at hsuffix
  · rcases lt_or_ge d.exponent 0 with he | he
    · -- the last digit would be the zero
      obtain ⟨s, hs⟩ := hsuffix
      have hlast := getLast?_positionalText he
      rw [← hs, List.getLast?_append_of_ne_nil _ (List.cons_ne_nil _ _)] at hlast
      exact h (hzero _ (Nat.mod_lt _ (by decide)) (Option.some.inj hlast))
    · -- there is no point
      have hpoint : '.' ∈ d.positionalText := hsuffix.subset (by decide)
      unfold positionalText at hpoint
      dsimp only at hpoint
      rw [if_pos he] at hpoint
      rcases List.mem_append.1 hpoint with hpoint | hpoint
      · obtain ⟨k, hk, hpoint⟩ := digits_mem hpoint
        exact ne_digitChar rfl hk hpoint
      · exact absurd (List.eq_of_mem_replicate hpoint) (by decide)
  · -- the exponent would have a point in it
    unfold scientificText at hsuffix
    dsimp only at hsuffix
    have hexponent := List.suffix_of_suffix_length_le hsuffix (List.suffix_append _ _) (by
      simp [NumberFormat.exponentText])
    exact point_not_mem_exponentText format _ (hexponent.subset (by decide))

end Decimal

/-! ## Fewest digits -/

namespace Magnitude

/-- The text of a positive magnitude is read as a decimal of the value of the shortest one. -/
theorem text_reads {m : Magnitude} (hpos : 0 < m.rank) (hf : m.isInfinite = false) :
    m.text = m.shortest.text numberFormat ∧
      ∃ d, decimalLiteral? m.text = some d ∧ d.units = m.shortest.units := by
  have hzero : m.isZero = false := by simp [isZero, hpos.ne']
  have htext : m.text = m.shortest.text numberFormat := by
    rw [text, hf, hzero]
    rfl
  rw [htext]
  exact ⟨rfl, m.shortest.text_reads numberFormat⟩

/-- **No decimal that is rounded to the magnitude has fewer digits than its text.** -/
theorem significantDigits_text_le {m : Magnitude} (hpos : 0 < m.rank) (hf : m.isInfinite = false)
    {d : Decimal} {k : ℕ} (hd : Rounds d.units m) (hk : d.coefficient < 10 ^ k) :
    significantDigits m.text ≤ k := by
  have hm : d.toMagnitude = m := d.rounds_toMagnitude.unique hd
  have hshortest : m.shortest.coefficient < 10 ^ k := by
    cases k with
    | zero =>
      -- without digits the decimal is zero
      have hcoefficient := coefficient_pos hpos hm
      omega
    | succ k => exact shortest_coefficient_lt hpos hm hk
  obtain ⟨-, d', hd', hunits⟩ := text_reads hpos hf
  have hrat := Decimal.rat_eq_of_units hunits
  rw [Decimal.rat, Decimal.rat, coefficient_of_decimalLiteral? hd'] at hrat
  exact length_significant_le mantissaDigits_lt hshortest hrat

end Magnitude

/-! ## Texts of doubles -/

/-- The text is the shortest one of the double: it is read as the double, and no decimal that
    is rounded to the double, in whatever literal, has fewer significant digits.  It does not
    end in a point and a zero, and an exponent is written just if that of the first digit is
    below -4 or at least 16. -/
structure IsShortestText (x : Double) (t : List Char) : Prop where
  reads : Double.ofLiteral? t = some x
  fewest : ∀ (d : Decimal) (k : ℕ), d.RoundsTo x → d.coefficient < 10 ^ k →
    significantDigits t ≤ k
  shortest : ∀ s, Double.ofLiteral? s = some x → significantDigits t ≤ significantDigits s
  whole : ¬ ['.', '0'] <:+ t
  decimal : ∃ d : Decimal, decimalLiteral? (withoutSign t) = some d ∧ d.RoundsTo x ∧
    (x.isZero = false → ∃ E : ℤ, (10 : ℚ) ^ E ≤ d.rat ∧ d.rat < (10 : ℚ) ^ (E + 1) ∧
      ('e' ∈ t ↔ E < -4 ∨ 16 ≤ E))

namespace Double

/-- The text of a finite double is that of its size, with the sign in front. -/
theorem text_of_finite (negative : Bool) (size : Magnitude) (hf : size.isInfinite = false) :
    withoutSign (signed negative size).text.toList = size.text ∧
      ('e' ∈ (signed negative size).text.toList ↔ 'e' ∈ size.text) ∧
      (['.', '0'] <:+ (signed negative size).text.toList ↔ ['.', '0'] <:+ size.text) := by
  obtain ⟨k, hk, s, hs⟩ := size.text_cons hf
  rw [text, String.toList_ofList]
  cases negative with
  | true =>
    refine ⟨rfl, ?_, ?_⟩
    · simp
    · simp [List.suffix_cons_iff]
  | false =>
    refine ⟨?_, Iff.rfl, Iff.rfl⟩
    rw [if_neg Bool.false_ne_true, hs]
    unfold withoutSign
    split
    · next heq => exact absurd (List.cons.inj heq).1.symm (ne_digitChar rfl hk)
    · next heq => exact absurd (List.cons.inj heq).1.symm (ne_digitChar rfl hk)
    · rfl

/-- The size of a double that a decimal is rounded to is what its absolute value is
    rounded to. -/
theorem rounds_of_roundsTo {d : Decimal} {negative : Bool} {size : Magnitude}
    (h : d.RoundsTo (signed negative size)) : Magnitude.Rounds d.units size := by
  obtain ⟨_, _, heq, h⟩ := h
  cases heq
  exact h

/-- Literals have no fewer significant digits than decimals have digits. -/
theorem shortest_of_fewest {x : Double} (hx : x.isFinite = true) {n : ℕ}
    (h : ∀ (d : Decimal) (k : ℕ), d.RoundsTo x → d.coefficient < 10 ^ k → n ≤ k)
    {s : List Char} (hs : Double.ofLiteral? s = some x) : n ≤ significantDigits s := by
  obtain ⟨d, hd, hk⟩ := few_of_ofLiteral? hs hx
  exact h d _ hd hk

theorem isShortestText_zero (negative : Bool) :
    IsShortestText (signed negative .zero) (signed negative .zero).text.toList := by
  obtain ⟨hsign, -, hsuffix⟩ := text_of_finite negative .zero rfl
  have htext : Magnitude.zero.text = ['0'] := rfl
  have hnone : significantDigits (signed negative .zero).text.toList = 0 := by
    rw [significantDigits, ← mantissaDigits_withoutSign, hsign, htext]
    decide +kernel
  refine ⟨ofLiteral?_text (by simp), ?_, ?_, ?_, ⟨0, 0⟩, ?_, ⟨negative, .zero, rfl, ?_⟩, ?_⟩
  · intro d k _ _
    rw [hnone]
    exact Nat.zero_le k
  · intro s _
    rw [hnone]
    exact Nat.zero_le _
  · rw [hsuffix, htext]
    decide
  · rw [hsign, htext]
    decide +kernel
  · exact Decimal.rounds_toMagnitude ⟨0, 0⟩
  · intro h
    cases h

theorem isShortestText_of_pos (negative : Bool) {size : Magnitude} (hpos : 0 < size.rank)
    (hf : size.isInfinite = false) :
    IsShortestText (signed negative size) (signed negative size).text.toList := by
  obtain ⟨hsign, hexponent, hsuffix⟩ := text_of_finite negative size hf
  obtain ⟨htext, d, hd, hunits⟩ := Magnitude.text_reads hpos hf
  have hround := d.rounds_toMagnitude
  rw [Decimal.toMagnitude_eq_of_units hunits, Magnitude.shortest_toMagnitude hpos] at hround
  have hfewest : ∀ (d : Decimal) (k : ℕ), d.RoundsTo (signed negative size) →
      d.coefficient < 10 ^ k → significantDigits (signed negative size).text.toList ≤ k := by
    intro d k hd hk
    rw [significantDigits, ← mantissaDigits_withoutSign, hsign]
    exact Magnitude.significantDigits_text_le hpos hf (rounds_of_roundsTo hd) hk
  refine ⟨ofLiteral?_text (by simp), hfewest, ?_, ?_, d, ?_, ⟨negative, size, rfl, hround⟩, ?_⟩
  · intro s hs
    exact shortest_of_fewest (by simp [isFinite, hf]) hfewest hs
  · rw [hsuffix, htext]
    exact Decimal.not_pointZero_text numberFormat (Magnitude.shortest_coefficient_mod hpos)
  · rw [hsign, hd]
  · intro _
    obtain ⟨hlow, hhigh⟩ :=
      Decimal.firstExponent_bounds (Magnitude.shortest_coefficient_pos hpos)
    rw [Decimal.rat_eq_of_units hunits, hexponent, htext]
    exact ⟨_, hlow, hhigh, Decimal.exponent_mem_text numberFormat _⟩

/-- The text of a finite double is the shortest one. -/
theorem isShortestText {x : Double} (h : x.isFinite = true) :
    IsShortestText x x.text.toList := by
  cases x with
  | nan => cases h
  | signed negative size =>
    have hf : size.isInfinite = false := by simpa [isFinite] using h
    rcases Nat.eq_zero_or_pos size.rank with hzero | hpos
    · obtain rfl : size = .zero := Magnitude.ext_rank hzero
      exact isShortestText_zero negative
    · exact isShortestText_of_pos negative hpos hf

end Double

/-- **The text of every finite double is its shortest text**, and different doubles that are
    not `nan` have different texts. -/
theorem formatNumber_shortest :
    (∀ x : Double, x.isFinite = true → IsShortestText x (formatNumber x).toList) ∧
    (∀ x y : Double, x ≠ .nan → y ≠ .nan → formatNumber x = formatNumber y → x = y) := by
  refine ⟨fun x => Double.isShortestText, ?_⟩
  intro x y hx hy h
  have hread := Double.ofLiteral?_text hx
  have hread' := Double.ofLiteral?_text hy
  unfold formatNumber at h
  rw [h, hread'] at hread
  exact (Option.some.inj hread).symm

/-- The least positive double has one significant digit, and the zeros have two texts. -/
theorem formatNumber_shortest_least :
    IsShortestText (.ofBits 1) ("5e-324").toList ∧
      formatNumber (.signed false .zero) ≠ formatNumber (.signed true .zero) := by
  have htext : formatNumber (.ofBits 1) = "5e-324" := by decide +kernel
  constructor
  · rw [← htext]
    exact formatNumber_shortest.1 _ (by decide)
  · intro h
    have heq := formatNumber_shortest.2 _ _ (by decide) (by decide) h
    exact absurd heq (by decide)

end LispCore

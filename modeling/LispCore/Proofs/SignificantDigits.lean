/-
  LispCore — the significant digits of literals.

  * `mantissaDigits`, `significant`: the digits of a literal, and what is left of them
    without the zeros in front and at the end;
  * `significantDigits`: how many digits these are;
  * `coefficient_of_decimalLiteral?`: the digits are those of the coefficient;
  * `length_significant_le`: significant digits are the fewest for a value;
  * `decimal_of_ofLiteral?`, `few_of_ofLiteral?`: every literal of a finite double has a
    decimal that is rounded to it, with as many digits as the literal has significant ones.
-/
import LispCore.Proofs.FewestDigits
import LispCore.Proofs.NumberText

namespace LispCore

/-! ## Digits -/

/-- The values of the digits of a literal, without those of an exponent. -/
def mantissaDigits (s : List Char) : List ℕ :=
  (s.takeWhile fun c => c ≠ 'e' ∧ c ≠ 'E').filterMap Text.digitValue?

/-- The digits without the zeros in front and at the end. -/
def significant (ds : List ℕ) : List ℕ := (ds.dropWhile (· = 0)).rdropWhile (· = 0)

/-- How many significant digits a literal has. -/
def significantDigits (s : List Char) : ℕ := (significant (mantissaDigits s)).length

theorem natOfDigits_lt {ds : List ℕ} (h : ∀ d ∈ ds, d < 10) :
    Text.natOfDigits ds < 10 ^ ds.length := by
  induction ds using List.reverseRecOn with
  | nil => decide
  | append_singleton ds d ih =>
    have hds := ih fun d hd => h d (List.mem_append_left _ hd)
    have hd := h d (by simp)
    have hone : Text.natOfDigits [d] = d := by simp [Text.natOfDigits]
    rw [natOfDigits_append, hone, List.length_append, List.length_singleton, pow_one, pow_succ]
    omega

theorem natOfDigits_cons (d : ℕ) (ds : List ℕ) :
    Text.natOfDigits (d :: ds) = d * 10 ^ ds.length + Text.natOfDigits ds := by
  rw [← List.singleton_append, natOfDigits_append]
  simp [Text.natOfDigits]

theorem natOfDigits_zeros {ds : List ℕ} (h : ∀ d ∈ ds, d = 0) : Text.natOfDigits ds = 0 := by
  induction ds with
  | nil => rfl
  | cons d ds ih =>
    rw [natOfDigits_cons, h d List.mem_cons_self, ih fun d hd => h d (List.mem_cons_of_mem _ hd),
      zero_mul]

theorem natOfDigits_dropWhile (ds : List ℕ) :
    Text.natOfDigits (ds.dropWhile (· = 0)) = Text.natOfDigits ds := by
  induction ds with
  | nil => rfl
  | cons d ds ih =>
    rw [List.dropWhile_cons]
    split
    · next hd => rw [ih, natOfDigits_cons, of_decide_eq_true hd, zero_mul, zero_add]
    · rfl

/-- The zeros that are left out are a power of ten. -/
theorem natOfDigits_significant (ds : List ℕ) :
    ∃ j, Text.natOfDigits ds = Text.natOfDigits (significant ds) * 10 ^ j := by
  generalize hes : ds.dropWhile (· = 0) = es
  have hsplit : es.rdropWhile (· = 0) ++ es.rtakeWhile (· = 0) = es :=
    List.rdropWhile_append_rtakeWhile
  have hzeros : Text.natOfDigits (es.rtakeWhile (· = 0)) = 0 := by
    refine natOfDigits_zeros ?_
    intro d hd
    have hd := List.mem_rtakeWhile_imp hd
    simpa using hd
  refine ⟨(es.rtakeWhile (· = 0)).length, ?_⟩
  calc Text.natOfDigits ds
      = Text.natOfDigits (es.rdropWhile (· = 0) ++ es.rtakeWhile (· = 0)) := by
        rw [hsplit, ← hes, natOfDigits_dropWhile]
    _ = Text.natOfDigits (significant ds) * 10 ^ (es.rtakeWhile (· = 0)).length := by
        rw [natOfDigits_append, hzeros, add_zero, significant, hes]

theorem significant_subset (ds : List ℕ) : ∀ d ∈ significant ds, d ∈ ds := by
  intro d hd
  exact (List.dropWhile_suffix _).subset ((List.rdropWhile_prefix _ _).subset hd)

/-- The first significant digit is not zero. -/
theorem head_significant {ds es : List ℕ} {d : ℕ} (h : significant ds = d :: es) : d ≠ 0 := by
  intro hd
  obtain ⟨rest, hrest⟩ := List.rdropWhile_prefix (· = 0) (ds.dropWhile (· = 0))
  change significant ds ++ rest = _ at hrest
  rw [h, List.cons_append] at hrest
  have hhead := List.head?_dropWhile_not (· = 0) ds
  rw [← hrest] at hhead
  simp [hd] at hhead

/-- The last significant digit is not zero. -/
theorem natOfDigits_significant_mod {ds : List ℕ} (hds : ∀ d ∈ ds, d < 10)
    (h : significant ds ≠ []) : Text.natOfDigits (significant ds) % 10 ≠ 0 := by
  have hlast := List.rdropWhile_last_not (fun d : ℕ => decide (d = 0))
    (ds.dropWhile (· = 0)) h
  have hlt := hds _ (significant_subset ds _ (List.getLast_mem h))
  change ¬ decide ((significant ds).getLast h = 0) at hlast
  rw [← List.dropLast_append_getLast h, natOfDigits_append]
  generalize (significant ds).getLast h = d at *
  simp only [decide_eq_true_eq] at hlast
  simp only [List.length_singleton, pow_one, Text.natOfDigits, List.foldl_cons, List.foldl_nil]
  omega

/-- Of the coefficients of a value, the least is the one without trailing zeros. -/
theorem coefficient_le {n c : ℕ} {a b : ℤ} (hmod : n % 10 ≠ 0)
    (h : (n : ℚ) * (10 : ℚ) ^ a = c * (10 : ℚ) ^ b) : n ≤ c := by
  have hten : (10 : ℚ) ≠ 0 := by norm_num
  rcases lt_or_ge a b with hab | hab
  · -- then the last digit would be a zero
    obtain ⟨i, rfl⟩ : ∃ i : ℕ, b = a + (i + 1 : ℕ) := ⟨(b - a - 1).toNat, by omega⟩
    rw [zpow_add₀ hten, zpow_natCast, mul_comm ((10 : ℚ) ^ a), ← mul_assoc] at h
    have hn : n = c * 10 ^ (i + 1) := by
      exact_mod_cast mul_right_cancel₀ (zpow_ne_zero a hten) h
    rw [hn, pow_succ, ← mul_assoc, Nat.mul_mod_left] at hmod
    exact absurd rfl hmod
  · obtain ⟨i, rfl⟩ : ∃ i : ℕ, a = b + (i : ℕ) := ⟨(a - b).toNat, by omega⟩
    rw [zpow_add₀ hten, zpow_natCast, mul_comm ((10 : ℚ) ^ b), ← mul_assoc] at h
    have hc : n * 10 ^ i = c := by
      exact_mod_cast mul_right_cancel₀ (zpow_ne_zero b hten) h
    exact hc ▸ Nat.le_mul_of_pos_right n (by positivity)

/-- **Significant digits are the fewest for a value.** -/
theorem length_significant_le {ds : List ℕ} (hds : ∀ d ∈ ds, d < 10) {c k : ℕ} {a b : ℤ}
    (hc : c < 10 ^ k) (h : (Text.natOfDigits ds : ℚ) * (10 : ℚ) ^ a = c * (10 : ℚ) ^ b) :
    (significant ds).length ≤ k := by
  cases hsig : significant ds with
  | nil => exact Nat.zero_le k
  | cons d es =>
    obtain ⟨j, hj⟩ := natOfDigits_significant ds
    have hmod := natOfDigits_significant_mod hds (by rw [hsig]; exact List.cons_ne_nil d es)
    have hlow : 10 ^ es.length ≤ Text.natOfDigits (significant ds) := by
      have hd := Nat.pos_of_ne_zero (head_significant hsig)
      have hle := Nat.le_mul_of_pos_left (10 ^ es.length) hd
      rw [hsig, natOfDigits_cons]
      omega
    rw [hj, Nat.cast_mul, Nat.cast_pow, mul_assoc, Nat.cast_ofNat, ← zpow_natCast (10 : ℚ) j,
      ← zpow_add₀ (by norm_num)] at h
    have hlt := (hlow.trans (coefficient_le hmod h)).trans_lt hc
    exact (Nat.pow_lt_pow_iff_right (by decide)).1 hlt

/-! ## The digits of a literal -/

theorem digitValue?_of_isDigit {c : Char} (h : c.isDigit) :
    Text.digitValue? c = some (digitNat c) := by
  simp only [Char.isDigit, Bool.and_eq_true, decide_eq_true_eq, UInt32.le_iff_toNat_le] at h
  have hrange : 0x30 ≤ c.toNat ∧ c.toNat < 0x30 + 10 := ⟨h.1, Nat.lt_succ_of_le h.2⟩
  rw [Text.digitValue?, Text.zeros, List.find?_cons_of_pos (by simpa using hrange)]
  rfl

theorem digitValue?_lt {c : Char} {d : ℕ} (h : Text.digitValue? c = some d) : d < 10 := by
  obtain ⟨z, hz, rfl⟩ := Option.map_eq_some_iff.1 h
  have := List.find?_some hz
  simp only [decide_eq_true_eq] at this
  omega

theorem mantissaDigits_lt {s : List Char} : ∀ d ∈ mantissaDigits s, d < 10 := by
  intro d hd
  obtain ⟨c, -, hc⟩ := List.mem_filterMap.1 hd
  exact digitValue?_lt hc

theorem mantissaDigits_cons (c : Char) (s : List Char) : mantissaDigits (c :: s) =
    if c = 'e' ∨ c = 'E' then [] else (Text.digitValue? c).toList ++ mantissaDigits s := by
  unfold mantissaDigits
  rw [List.takeWhile_cons]
  by_cases h : c = 'e' ∨ c = 'E'
  · rw [if_pos h, if_neg (by simpa [imp_iff_not_or] using h)]
    rfl
  · rw [if_neg h, if_pos (by simpa using h), List.filterMap_cons]
    cases Text.digitValue? c <;> rfl

/-- What is no digit and does not begin an exponent has no part in the digits. -/
theorem mantissaDigits_skip {c : Char} (hc : Text.digitValue? c = none) (hmark : c ≠ 'e' ∧ c ≠ 'E')
    (s : List Char) : mantissaDigits (c :: s) = mantissaDigits s := by
  rw [mantissaDigits_cons, hc, if_neg (not_or.2 hmark)]
  rfl

theorem mantissaDigits_append {w : List Char} (hw : ∀ c ∈ w, c.isDigit) (s : List Char) :
    mantissaDigits (w ++ s) = w.map digitNat ++ mantissaDigits s := by
  induction w with
  | nil => rfl
  | cons c w ih =>
    have hc := hw c List.mem_cons_self
    have hmark : ¬ (c = 'e' ∨ c = 'E') := by
      rintro (rfl | rfl) <;> exact absurd hc (by decide)
    rw [List.cons_append, mantissaDigits_cons, if_neg hmark, digitValue?_of_isDigit hc,
      ih fun c hc => hw c (List.mem_cons_of_mem _ hc)]
    rfl

/-- An exponent has no part in the digits. -/
theorem mantissaDigits_mark {mark : Char} (h : mark = 'e' ∨ mark = 'E') (s : List Char) :
    mantissaDigits (mark :: s) = [] := by
  rw [mantissaDigits_cons, if_pos h]

theorem mantissaDigits_split (s : List Char) : mantissaDigits s =
    (s.takeWhile Char.isDigit).map digitNat ++ mantissaDigits (s.dropWhile Char.isDigit) := by
  have hdigits : ∀ c ∈ s.takeWhile Char.isDigit, c.isDigit :=
    fun c hc => List.mem_takeWhile_imp hc
  rw [← mantissaDigits_append hdigits, List.takeWhile_append_dropWhile]

/-- **The digits of a decimal literal are those of its coefficient.** -/
theorem coefficient_of_decimalLiteral? {s : List Char} {d : Decimal}
    (h : decimalLiteral? s = some d) : d.coefficient = Text.natOfDigits (mantissaDigits s) := by
  -- what comes after the digits has none
  have hlast {ds rest : List Char} (hrest : mantissaDigits rest = []) :
      natOfText ds = Text.natOfDigits (ds.map digitNat ++ mantissaDigits rest) := by
    rw [hrest, List.append_nil]
    rfl
  unfold decimalLiteral? at h
  dsimp only at h
  rw [mantissaDigits_split s]
  generalize s.takeWhile Char.isDigit = whole at *
  generalize s.dropWhile Char.isDigit = rest at *
  split at h
  · next rest =>
    rw [mantissaDigits_skip (by decide +kernel) (by decide), mantissaDigits_split rest,
      ← List.append_assoc, ← List.map_append]
    split at h
    · cases h
    split at h
    · next heq =>
      cases h
      exact hlast (congrArg mantissaDigits heq)
    · next mark exponent heq =>
      split at h
      · next hmark =>
        obtain ⟨e, -, rfl⟩ := Option.map_eq_some_iff.1 h
        exact hlast ((congrArg mantissaDigits heq).trans (mantissaDigits_mark hmark exponent))
      · cases h
  · -- without a point
    split at h
    · cases h
    rw [List.append_nil] at h
    split at h
    · next heq =>
      cases h
      exact hlast (congrArg mantissaDigits heq)
    · next mark exponent heq =>
      split at h
      · next hmark =>
        obtain ⟨e, -, rfl⟩ := Option.map_eq_some_iff.1 h
        exact hlast ((congrArg mantissaDigits heq).trans (mantissaDigits_mark hmark exponent))
      · cases h

/-- Digits of other scripts are the same digits. -/
theorem mantissaDigits_asciiDigits? {s t : List Char} (h : asciiDigits? s = some t) :
    mantissaDigits t = mantissaDigits s := by
  have hascii : ∀ k < 10, Text.digitValue? (digitChar k) = some k ∧
      ¬ (digitChar k = 'e' ∨ digitChar k = 'E') := by decide +kernel
  induction s generalizing t with
  | nil => cases h; rfl
  | cons c s ih =>
    unfold asciiDigits? at h ih
    rw [List.mapM_cons] at h
    obtain ⟨c', hc, h⟩ := Option.bind_eq_some_iff.1 h
    obtain ⟨t', ht, h⟩ := Option.bind_eq_some_iff.1 h
    obtain rfl := Option.some.inj h
    rw [mantissaDigits_cons, mantissaDigits_cons, ih ht]
    split at hc
    · obtain rfl := Option.some.inj hc
      rfl
    · next hother =>
      obtain ⟨k, hk, rfl⟩ := Option.map_eq_some_iff.1 hc
      obtain ⟨hvalue, hmark⟩ := hascii k (digitValue?_lt hk)
      have hc : ¬ (c = 'e' ∨ c = 'E') := by
        rintro (rfl | rfl) <;> exact hother (by decide)
      rw [if_neg hmark, if_neg hc, hvalue, hk]

theorem mantissaDigits_dropUnderscores? {afterDigit : Bool} {s t : List Char}
    (h : dropUnderscores? afterDigit s = some t) : mantissaDigits t = mantissaDigits s := by
  have hunderscore : Text.digitValue? '_' = none := by decide +kernel
  fun_induction dropUnderscores? afterDigit s generalizing t with
  | case1 => cases h; rfl
  | case2 afterDigit c rest hc ih =>
    obtain ⟨t', ht, rfl⟩ := Option.map_eq_some_iff.1 h
    rw [mantissaDigits_skip hunderscore (by decide), mantissaDigits_cons, mantissaDigits_cons,
      ih ht]
  | case3 => cases h
  | case4 => cases h
  | case5 afterDigit c rest _ _ ih =>
    obtain ⟨t', ht, rfl⟩ := Option.map_eq_some_iff.1 h
    rw [mantissaDigits_cons, mantissaDigits_cons, ih ht]

/-- A literal without its sign. -/
def withoutSign : List Char → List Char
  | '+' :: s => s
  | '-' :: s => s
  | s => s

theorem mantissaDigits_withoutSign (s : List Char) :
    mantissaDigits (withoutSign s) = mantissaDigits s := by
  unfold withoutSign
  split
  · rw [mantissaDigits_skip (by decide +kernel) (by decide)]
  · rw [mantissaDigits_skip (by decide +kernel) (by decide)]
  · rfl

theorem plainLiteral?_eq (s : List Char) :
    ∃ negative, plainLiteral? s = unsignedLiteral? negative (withoutSign s) := by
  unfold plainLiteral?
  split
  · exact ⟨false, rfl⟩
  · exact ⟨true, rfl⟩
  · next hplus hminus =>
    refine ⟨false, ?_⟩
    unfold withoutSign
    split
    · exact absurd rfl (hplus _)
    · exact absurd rfl (hminus _)
    · rfl

/-- The decimal is rounded to the double, whose sign it leaves open. -/
def Decimal.RoundsTo (d : Decimal) (x : Double) : Prop :=
  ∃ negative size, x = .signed negative size ∧ Magnitude.Rounds d.units size

/-- **A literal of a finite double has a decimal that is rounded to it**, with the digits of
    the literal. -/
theorem decimal_of_ofLiteral? {s : List Char} {x : Double} (h : Double.ofLiteral? s = some x)
    (hx : x.isFinite) :
    ∃ d : Decimal, d.RoundsTo x ∧ d.coefficient = Text.natOfDigits (mantissaDigits s) := by
  obtain ⟨ascii, hascii, h⟩ := Option.bind_eq_some_iff.1 h
  obtain ⟨plain, hplain, h⟩ := Option.bind_eq_some_iff.1 h
  obtain ⟨negative, hsign⟩ := plainLiteral?_eq plain
  rw [hsign] at h
  rw [← mantissaDigits_asciiDigits? hascii, ← mantissaDigits_dropUnderscores? hplain,
    ← mantissaDigits_withoutSign plain]
  unfold unsignedLiteral? at h
  dsimp only at h
  split at h
  · obtain rfl := Option.some.inj h
    cases hx
  split at h
  · obtain rfl := Option.some.inj h
    cases hx
  · obtain ⟨d, hd, rfl⟩ := Option.map_eq_some_iff.1 h
    exact ⟨d, ⟨negative, _, rfl, d.rounds_toMagnitude⟩, coefficient_of_decimalLiteral? hd⟩

/-- **A literal of a finite double has a decimal that is rounded to it**, with no more digits
    than the literal has significant ones. -/
theorem few_of_ofLiteral? {s : List Char} {x : Double} (h : Double.ofLiteral? s = some x)
    (hx : x.isFinite) :
    ∃ d : Decimal, d.RoundsTo x ∧ d.coefficient < 10 ^ significantDigits s := by
  obtain ⟨d, ⟨negative, size, hsize, hround⟩, hd⟩ := decimal_of_ofLiteral? h hx
  obtain ⟨j, hj⟩ := natOfDigits_significant (mantissaDigits s)
  refine ⟨⟨Text.natOfDigits (significant (mantissaDigits s)), d.exponent + j⟩,
    ⟨negative, size, hsize, ?_⟩, ?_⟩
  · have hunits : d.units =
        (⟨Text.natOfDigits (significant (mantissaDigits s)), d.exponent + j⟩ : Decimal).units := by
      rw [Decimal.units, Decimal.units, hd, hj, zpow_add₀ (by norm_num), zpow_natCast]
      push_cast
      ring
    rwa [← hunits]
  · exact natOfDigits_lt fun d hd => mantissaDigits_lt d (significant_subset _ d hd)

end LispCore

/-
  LispCore — the text of a number reads back as the number.

  * `natOfText_digits`: digits are read as the number they were written from;
  * `Decimal.text_reads`: both notations of a decimal are read as a decimal of the same
    value;
  * `NumberChar`: the characters in the text of a number, none of which is from outside
    ASCII, an underscore, or an end of an atom;
  * `Double.ofLiteral?_text`: every double but `nan` reads back, its sign included.
-/
import LispCore.Double.Literal
import LispCore.Double.Notation
import LispCore.Proofs.Shortest
import LispCore.Reader.Token

namespace LispCore

/-! ## Digits -/

theorem isDigit_digitChar : ∀ {d : ℕ}, d < 10 → (digitChar d).isDigit := by decide

theorem ne_digitChar {c : Char} (hc : c.isDigit = false) {d : ℕ} (hd : d < 10) :
    c ≠ digitChar d := by
  rintro rfl
  rw [isDigit_digitChar hd] at hc
  cases hc

theorem digitNat_digitChar : ∀ {d : ℕ}, d < 10 → digitNat (digitChar d) = d := by decide

theorem digits_mem {n : ℕ} {c : Char} (h : c ∈ digits n) : ∃ d < 10, c = digitChar d := by
  induction n using Nat.strong_induction_on with
  | h n ih =>
    unfold digits at h
    split at h
    · next hn => exact ⟨n, hn, by simpa using h⟩
    · rcases List.mem_append.1 h with h | h
      · exact ih (n / 10) (by omega) h
      · exact ⟨n % 10, Nat.mod_lt n (by decide), by simpa using h⟩

theorem digits_ne_nil (n : ℕ) : digits n ≠ [] := by
  unfold digits
  split <;> simp

theorem isDigit_of_mem_digits {n : ℕ} : ∀ c ∈ digits n, c.isDigit := by
  intro c hc
  obtain ⟨d, hd, rfl⟩ := digits_mem hc
  exact isDigit_digitChar hd

theorem natOfDigits_append (ds es : List ℕ) : Text.natOfDigits (ds ++ es) =
    Text.natOfDigits ds * 10 ^ es.length + Text.natOfDigits es := by
  induction es using List.reverseRecOn with
  | nil => simp [Text.natOfDigits]
  | append_singleton es e ih =>
    have hsnoc (l : List ℕ) : Text.natOfDigits (l ++ [e]) = 10 * Text.natOfDigits l + e := by
      simp [Text.natOfDigits, List.foldl_append]
    rw [← List.append_assoc, hsnoc, hsnoc, ih, List.length_append, List.length_singleton,
      pow_succ]
    ring

theorem natOfText_append (s t : List Char) :
    natOfText (s ++ t) = natOfText s * 10 ^ t.length + natOfText t := by
  rw [natOfText, List.map_append, natOfDigits_append, List.length_map]
  rfl

theorem natOfText_digits (n : ℕ) : natOfText (digits n) = n := by
  have hone {d : ℕ} (hd : d < 10) : natOfText [digitChar d] = d := by
    simp [natOfText, Text.natOfDigits, digitNat_digitChar hd]
  induction n using Nat.strong_induction_on with
  | h n ih =>
    unfold digits
    split
    · next hn => exact hone hn
    · rw [natOfText_append, ih (n / 10) (by omega), hone (Nat.mod_lt n (by decide))]
      simp only [List.length_singleton, pow_one]
      omega

theorem natOfText_zeros (k : ℕ) : natOfText (List.replicate k '0') = 0 := by
  induction k with
  | zero => rfl
  | succ k ih =>
    rw [List.replicate_succ', natOfText_append, ih]
    rfl

theorem natOfText_zeros_append (k : ℕ) (s : List Char) :
    natOfText (List.replicate k '0' ++ s) = natOfText s := by
  rw [natOfText_append, natOfText_zeros, zero_mul, zero_add]

/-! ## Decimals -/

section
variable {w f : List Char}

/-- The digits after the point, and the point if there are any. -/
def pointed : List Char → List Char
  | [] => []
  | fraction => '.' :: fraction

theorem pointed_of_ne_nil (h : f ≠ []) : pointed f = '.' :: f := by
  cases f with
  | nil => exact absurd rfl h
  | cons => rfl

theorem takeWhile_isDigit (rest : List Char) (hs : ∀ c ∈ w, c.isDigit)
    (hr : ∀ c ∈ rest.head?, ¬ c.isDigit) :
    (w ++ rest).takeWhile Char.isDigit = w ∧
      (w ++ rest).dropWhile Char.isDigit = rest := by
  rw [List.takeWhile_append_of_pos hs, List.dropWhile_append_of_pos hs]
  cases rest with
  | nil => simp
  | cons c rest => simp [hr c rfl]

variable (hw : ∀ c ∈ w, c.isDigit) (hf : ∀ c ∈ f, c.isDigit) (hne : w ≠ [])
include hw hf hne

theorem decimalLiteral?_pointed : decimalLiteral? (w ++ pointed f) =
    some ⟨natOfText (w ++ f), -(f.length : ℤ)⟩ := by
  cases f with
  | nil =>
    obtain ⟨htake, hdrop⟩ := takeWhile_isDigit [] hw (by simp)
    unfold decimalLiteral?
    simp only [pointed, htake, hdrop]
    simp [hne]
  | cons d f =>
    obtain ⟨htake, hdrop⟩ := takeWhile_isDigit ('.' :: d :: f) hw (by simp)
    obtain ⟨htake', hdrop'⟩ := takeWhile_isDigit [] hf (by simp)
    rw [List.append_nil] at htake' hdrop'
    unfold decimalLiteral?
    simp only [pointed, htake, hdrop, htake', hdrop']
    simp

theorem decimalLiteral?_exponent (e : List Char) :
    decimalLiteral? (w ++ (pointed f ++ 'e' :: e)) =
      (exponentLiteral? e).map fun n => ⟨natOfText (w ++ f), n - f.length⟩ := by
  cases f with
  | nil =>
    obtain ⟨htake, hdrop⟩ := takeWhile_isDigit ('e' :: e) hw (by simp)
    unfold decimalLiteral?
    simp only [pointed, List.nil_append, htake, hdrop]
    simp [hne]
  | cons d f =>
    obtain ⟨htake, hdrop⟩ := takeWhile_isDigit ('.' :: d :: (f ++ 'e' :: e)) hw
      (by simp)
    obtain ⟨htake', hdrop'⟩ := takeWhile_isDigit ('e' :: e) hf (by simp)
    rw [List.cons_append] at htake' hdrop'
    unfold decimalLiteral?
    simp only [pointed, List.cons_append, htake, hdrop, htake', hdrop']
    simp

end

theorem isDigit_zeros_digits (k n : ℕ) : ∀ c ∈ List.replicate k '0' ++ digits n, c.isDigit := by
  intro c hc
  rcases List.mem_append.1 hc with hc | hc
  · rw [List.eq_of_mem_replicate hc]
    rfl
  · exact isDigit_of_mem_digits c hc

theorem exponentLiteral?_exponentText (format : NumberFormat) (e : ℤ) :
    exponentLiteral? (format.exponentText e) = some e := by
  have hdigits := isDigit_zeros_digits (format.exponentDigits - (digits e.natAbs).length) e.natAbs
  have hvalue := natOfText_zeros_append (format.exponentDigits - (digits e.natAbs).length)
    (digits e.natAbs)
  have hne : List.replicate (format.exponentDigits - (digits e.natAbs).length) '0' ++
      digits e.natAbs ≠ [] := by simp [digits_ne_nil]
  unfold NumberFormat.exponentText
  dsimp only
  rw [List.cons_append]
  generalize List.replicate (format.exponentDigits - (digits e.natAbs).length) '0' ++
    digits e.natAbs = ds at *
  rw [natOfText_digits] at hvalue
  have hread : ds ≠ [] ∧ ds.all Char.isDigit := ⟨hne, List.all_eq_true.2 hdigits⟩
  split
  · unfold exponentLiteral?
    simp only [if_pos hread, hvalue, Option.bind_eq_bind, Option.bind_some, Option.pure_def,
      Option.map_some, Option.some.injEq]
    omega
  · unfold exponentLiteral?
    simp only [if_pos hread, hvalue, Option.bind_eq_bind, Option.bind_some, Option.pure_def,
      Option.map_some, Option.some.injEq]
    omega

namespace Decimal

theorem length_digits_pos (n : ℕ) : 0 < (digits n).length :=
  List.length_pos_iff.2 (digits_ne_nil n)

theorem scientificText_reads (format : NumberFormat) (d : Decimal) :
    decimalLiteral? (d.scientificText format) = some d := by
  have hlen := length_digits_pos d.coefficient
  have hdigits := isDigit_of_mem_digits (n := d.coefficient)
  have htext : d.scientificText format = (digits d.coefficient).take 1 ++
      (pointed ((digits d.coefficient).drop 1) ++ 'e' :: format.exponentText d.firstExponent) := by
    unfold scientificText
    dsimp only
    rw [List.append_assoc]
    congr 2
    split
    · next h => rw [List.drop_eq_nil_of_le h]; rfl
    · next h => rw [pointed_of_ne_nil fun h' => h (List.drop_eq_nil_iff.1 h')]
  rw [htext, decimalLiteral?_exponent (fun c hc => hdigits c (List.mem_of_mem_take hc))
    (fun c hc => hdigits c (List.mem_of_mem_drop hc)) (by simp [digits_ne_nil]),
    exponentLiteral?_exponentText, List.take_append_drop, natOfText_digits, Option.map_some,
    List.length_drop, firstExponent]
  cases d
  simp only [Option.some.injEq, mk.injEq, true_and] at hlen ⊢
  omega

theorem positionalText_reads (d : Decimal) :
    ∃ d', decimalLiteral? d.positionalText = some d' ∧ d'.units = d.units := by
  have hlen := length_digits_pos d.coefficient
  have hdigits := isDigit_of_mem_digits (n := d.coefficient)
  unfold positionalText
  dsimp only
  split
  · -- a whole number
    next he =>
    have hall : ∀ c ∈ digits d.coefficient ++ List.replicate d.exponent.toNat '0', c.isDigit := by
      intro c hc
      rcases List.mem_append.1 hc with hc | hc
      · exact hdigits c hc
      · rw [List.eq_of_mem_replicate hc]; rfl
    have hread := decimalLiteral?_pointed (f := []) hall (by simp) (by simp [digits_ne_nil])
    rw [pointed, List.append_nil] at hread
    refine ⟨_, hread, ?_⟩
    rw [units, units, natOfText_append, natOfText_zeros, natOfText_digits,
      List.length_replicate]
    obtain ⟨k, hk⟩ := Int.eq_ofNat_of_zero_le he
    simp [hk]
  split
  · -- digits on both sides of the point
    next he hfirst =>
    refine ⟨d, ?_, rfl⟩
    generalize hwhole : (d.firstExponent + 1).toNat = whole
    rw [firstExponent] at hfirst hwhole
    have hne : (digits d.coefficient).drop whole ≠ [] := by
      rw [Ne, List.drop_eq_nil_iff]
      omega
    rw [← pointed_of_ne_nil hne,
      decimalLiteral?_pointed (fun c hc => hdigits c (List.mem_of_mem_take hc))
        (fun c hc => hdigits c (List.mem_of_mem_drop hc))
        (by rw [Ne, List.take_eq_nil_iff]; simp [digits_ne_nil]; omega),
      List.take_append_drop, natOfText_digits, List.length_drop]
    cases d
    simp only [Option.some.injEq, mk.injEq, true_and] at *
    omega
  · -- a number below one
    next he hfirst =>
    refine ⟨d, ?_, rfl⟩
    generalize hzeros : (-d.firstExponent - 1).toNat = zeros
    rw [firstExponent] at hfirst hzeros
    have hne : List.replicate zeros '0' ++ digits d.coefficient ≠ [] := by simp [digits_ne_nil]
    have hread := decimalLiteral?_pointed (w := ['0']) (by simp) (isDigit_zeros_digits zeros
      d.coefficient) (by simp)
    have hvalue : natOfText ('0' :: (List.replicate zeros '0' ++ digits d.coefficient)) =
        d.coefficient :=
      (natOfText_zeros_append (zeros + 1) _).trans (natOfText_digits d.coefficient)
    rw [pointed_of_ne_nil hne, List.singleton_append, List.singleton_append, hvalue] at hread
    refine hread.trans ?_
    cases d
    simp only [Option.some.injEq, mk.injEq, true_and, List.length_append,
      List.length_replicate] at *
    omega

/-- **The text of a decimal is read as a decimal of the same value.** -/
theorem text_reads (format : NumberFormat) (d : Decimal) :
    ∃ d', decimalLiteral? (d.text format) = some d' ∧ d'.units = d.units := by
  unfold text
  split
  · exact positionalText_reads d
  · exact ⟨d, scientificText_reads format d, rfl⟩

end Decimal

/-! ## Characters -/

/-- The characters besides digits in the text of a number. -/
def numberSigns : List Char := ['.', 'e', '+', '-', 'i', 'n', 'f', 'a']

theorem inf_toList : "inf".toList = ['i', 'n', 'f'] := by decide +kernel

theorem infinity_toList : "infinity".toList = ['i', 'n', 'f', 'i', 'n', 'i', 't', 'y'] := by
  decide +kernel

theorem nan_toList : "nan".toList = ['n', 'a', 'n'] := by decide +kernel

/-- The characters of which the text of a number is made. -/
def NumberChar (c : Char) : Prop :=
  (∃ k < 10, c = digitChar k) ∨ c ∈ numberSigns

theorem NumberChar.spec {c : Char} (h : NumberChar c) :
    c.toNat < 128 ∧ c ≠ '_' ∧ isAtomChar c := by
  have hdigit : ∀ k ∈ List.range 10, (digitChar k).toNat < 128 ∧ digitChar k ≠ '_' ∧
      isAtomChar (digitChar k) := by decide +kernel
  rcases h with ⟨k, hk, rfl⟩ | h
  · exact hdigit k (List.mem_range.2 hk)
  · simp only [numberSigns, List.mem_cons, List.not_mem_nil, or_false] at h
    rcases h with rfl | rfl | rfl | rfl | rfl | rfl | rfl | rfl <;> decide

theorem numberChar_zero : NumberChar '0' := Or.inl ⟨0, by decide, rfl⟩

theorem numberChar_of_mem_digits {n : ℕ} {c : Char} (h : c ∈ digits n) : NumberChar c :=
  Or.inl (digits_mem h)

theorem mem_exponentText {format : NumberFormat} {e : ℤ} {c : Char}
    (h : c ∈ format.exponentText e) : (∃ k < 10, c = digitChar k) ∨ c ∈ ['+', '-'] := by
  unfold NumberFormat.exponentText at h
  dsimp only at h
  rcases List.mem_append.1 h with h | h
  · rcases List.mem_cons.1 h with rfl | h
    · right
      split <;> decide
    · rw [List.eq_of_mem_replicate h]
      exact Or.inl ⟨0, by decide, rfl⟩
  · exact Or.inl (digits_mem h)

theorem numberChar_of_mem_exponentText {format : NumberFormat} {e : ℤ} {c : Char}
    (h : c ∈ format.exponentText e) : NumberChar c :=
  (mem_exponentText h).imp_right fun h => (by decide : ['+', '-'] ⊆ numberSigns) h

theorem numberChar_of_mem_scientificText {format : NumberFormat} {d : Decimal} {c : Char}
    (h : c ∈ d.scientificText format) : NumberChar c := by
  unfold Decimal.scientificText at h
  dsimp only at h
  rcases List.mem_append.1 h with h | h
  · rcases List.mem_append.1 h with h | h
    · exact numberChar_of_mem_digits (List.mem_of_mem_take h)
    · split at h
      · cases h
      · rcases List.mem_cons.1 h with rfl | h
        · exact Or.inr (by decide)
        · exact numberChar_of_mem_digits (List.mem_of_mem_drop h)
  · rcases List.mem_cons.1 h with rfl | h
    · exact Or.inr (by decide)
    · exact numberChar_of_mem_exponentText h

theorem mem_positionalText {d : Decimal} {c : Char} (h : c ∈ d.positionalText) :
    (∃ k < 10, c = digitChar k) ∨ c = '.' := by
  have hzero : ∃ k < 10, '0' = digitChar k := ⟨0, by decide, rfl⟩
  unfold Decimal.positionalText at h
  dsimp only at h
  split at h
  · rcases List.mem_append.1 h with h | h
    · exact Or.inl (digits_mem h)
    · rw [List.eq_of_mem_replicate h]
      exact Or.inl hzero
  split at h
  · rcases List.mem_append.1 h with h | h
    · exact Or.inl (digits_mem (List.mem_of_mem_take h))
    · rcases List.mem_cons.1 h with rfl | h
      · exact Or.inr rfl
      · exact Or.inl (digits_mem (List.mem_of_mem_drop h))
  · rcases List.mem_append.1 h with h | h
    · rcases List.mem_cons.1 h with rfl | h
      · exact Or.inl hzero
      · rcases List.mem_cons.1 h with rfl | h
        · exact Or.inr rfl
        · rw [List.eq_of_mem_replicate h]
          exact Or.inl hzero
    · exact Or.inl (digits_mem h)

theorem numberChar_of_mem_positionalText {d : Decimal} {c : Char} (h : c ∈ d.positionalText) :
    NumberChar c := by
  rcases mem_positionalText h with h | rfl
  · exact Or.inl h
  · exact Or.inr (by decide)

theorem numberChar_of_mem_text {m : Magnitude} {c : Char} (h : c ∈ m.text) : NumberChar c := by
  unfold Magnitude.text at h
  split at h
  · rw [inf_toList] at h
    exact Or.inr ((by decide : ['i', 'n', 'f'] ⊆ numberSigns) h)
  split at h
  · rw [List.mem_singleton.1 h]
    exact numberChar_zero
  · unfold Decimal.text at h
    split at h
    · exact numberChar_of_mem_positionalText h
    · exact numberChar_of_mem_scientificText h

theorem digits_cons (n : ℕ) : ∃ k < 10, ∃ s, digits n = digitChar k :: s := by
  cases h : digits n with
  | nil => exact absurd h (digits_ne_nil n)
  | cons c s =>
    obtain ⟨k, hk, rfl⟩ := digits_mem (n := n) (c := c) (by rw [h]; exact List.mem_cons_self)
    exact ⟨k, hk, s, rfl⟩

/-- The text of a decimal begins with a digit. -/
theorem Decimal.text_cons (format : NumberFormat) (d : Decimal) :
    ∃ k < 10, ∃ s, d.text format = digitChar k :: s := by
  obtain ⟨k, hk, s, hs⟩ := digits_cons d.coefficient
  unfold text positionalText scientificText
  simp only [hs]
  split
  · split
    · exact ⟨k, hk, _, rfl⟩
    split
    · next h =>
      obtain ⟨w, hw⟩ : ∃ w, (d.firstExponent + 1).toNat = w + 1 :=
        ⟨d.firstExponent.toNat, by omega⟩
      rw [hw]
      exact ⟨k, hk, _, rfl⟩
    · exact ⟨0, by decide, _, rfl⟩
  · exact ⟨k, hk, _, rfl⟩

/-! ## Literals -/

theorem asciiDigits?_of_ascii {s : List Char} (h : ∀ c ∈ s, c.toNat < 128) :
    asciiDigits? s = some s := by
  induction s with
  | nil => rfl
  | cons c s ih =>
    have hs := ih fun c hc => h c (List.mem_cons_of_mem _ hc)
    unfold asciiDigits? at *
    rw [List.mapM_cons, hs, if_pos (h c List.mem_cons_self)]
    rfl

theorem dropUnderscores?_of_not_mem {s : List Char} (h : '_' ∉ s) (afterDigit : Bool) :
    dropUnderscores? afterDigit s = some s := by
  induction s generalizing afterDigit with
  | nil => rfl
  | cons c s ih =>
    have hc : c ≠ '_' := fun hc => h (hc ▸ List.mem_cons_self)
    unfold dropUnderscores?
    split
    · next heq => cases heq
    · next heq => cases heq; exact absurd rfl hc
    · next heq => cases heq; exact absurd rfl hc
    · next heq =>
      cases heq
      rw [ih (fun hs => h (List.mem_cons_of_mem _ hs))]
      rfl

theorem unsignedLiteral?_of_decimal {negative : Bool} {k : ℕ} (hk : k < 10) {s : List Char}
    {d : Decimal} (h : decimalLiteral? (digitChar k :: s) = some d) :
    unsignedLiteral? negative (digitChar k :: s) = some (.signed negative d.toMagnitude) := by
  have hword : ∀ {k}, k < 10 → (digitChar k).toLower ≠ 'i' ∧ (digitChar k).toLower ≠ 'n' := by
    decide
  have hi : ∀ w : List Char, ((digitChar k :: s).map Char.toLower) ≠ 'i' :: w :=
    fun w h => (hword hk).1 (List.cons.inj h).1
  have hn : ∀ w : List Char, ((digitChar k :: s).map Char.toLower) ≠ 'n' :: w :=
    fun w h => (hword hk).2 (List.cons.inj h).1
  unfold unsignedLiteral?
  dsimp only
  rw [inf_toList, infinity_toList, nan_toList, if_neg (not_or.2 ⟨hi _, hi _⟩), if_neg (hn _), h]
  rfl

theorem Magnitude.ext_rank {m n : Magnitude} (h : m.rank = n.rank) : m = n := by
  cases m; cases n; cases h; rfl

/-- **The text of a magnitude is read as the magnitude.** -/
theorem unsignedLiteral?_text (negative : Bool) (m : Magnitude) :
    unsignedLiteral? negative m.text = some (.signed negative m) := by
  unfold Magnitude.text
  split
  · next h =>
    rw [Magnitude.ext_rank (m := m) (n := .infinity) (beq_iff_eq.1 h)]
    rfl
  split
  · next h =>
    rw [Magnitude.ext_rank (m := m) (n := .zero) (beq_iff_eq.1 h)]
    rfl
  · next h =>
    have hpos : 0 < m.rank := Nat.pos_of_ne_zero fun h' => h (beq_iff_eq.2 h')
    obtain ⟨d, hd, hunits⟩ := m.shortest.text_reads numberFormat
    obtain ⟨k, hk, s, hs⟩ := m.shortest.text_cons numberFormat
    rw [hs] at hd ⊢
    rw [unsignedLiteral?_of_decimal hk hd, Decimal.toMagnitude_eq_of_units hunits,
      Magnitude.shortest_toMagnitude hpos]

/-- The text of a finite magnitude begins with a digit. -/
theorem Magnitude.text_cons {m : Magnitude} (h : m.isInfinite = false) :
    ∃ k < 10, ∃ s, m.text = digitChar k :: s := by
  unfold text
  rw [h, if_neg Bool.false_ne_true]
  split
  · exact ⟨0, by decide, [], rfl⟩
  · exact m.shortest.text_cons numberFormat

theorem plainLiteral?_text (m : Magnitude) :
    plainLiteral? m.text = unsignedLiteral? false m.text := by
  have hhead : ∃ c s, m.text = c :: s ∧ c ≠ '+' ∧ c ≠ '-' := by
    cases h : m.isInfinite with
    | true => exact ⟨'i', ['n', 'f'], by simp [Magnitude.text, h], by decide, by decide⟩
    | false =>
      obtain ⟨k, hk, s, hs⟩ := m.text_cons h
      exact ⟨_, s, hs, (ne_digitChar rfl hk).symm, (ne_digitChar rfl hk).symm⟩
  obtain ⟨c, s, hs, hplus, hminus⟩ := hhead
  rw [hs]
  unfold plainLiteral?
  split
  · next heq => cases heq; exact absurd rfl hplus
  · next heq => cases heq; exact absurd rfl hminus
  · rfl

theorem Double.numberChar_of_mem_text {x : Double} {c : Char} (h : c ∈ x.text.toList) :
    NumberChar c := by
  cases x with
  | nan =>
    rw [text, nan_toList] at h
    exact Or.inr ((by decide : ['n', 'a', 'n'] ⊆ numberSigns) h)
  | signed negative size =>
    rw [text, String.toList_ofList] at h
    split at h
    · rcases List.mem_cons.1 h with rfl | h
      · exact Or.inr (by decide)
      · exact LispCore.numberChar_of_mem_text h
    · exact LispCore.numberChar_of_mem_text h

/-- **Every double but `nan` reads back from its text.** -/
theorem Double.ofLiteral?_text {x : Double} (hx : x ≠ .nan) :
    Double.ofLiteral? x.text.toList = some x := by
  have hchar := fun c (hc : c ∈ x.text.toList) => (Double.numberChar_of_mem_text hc).spec
  have hascii := asciiDigits?_of_ascii fun c hc => (hchar c hc).1
  have hunder : withoutUnderscores? x.text.toList = some x.text.toList :=
    dropUnderscores?_of_not_mem (fun h => (hchar '_' h).2.1 rfl) false
  unfold Double.ofLiteral?
  simp only [hascii, hunder, Option.bind_eq_bind, Option.bind_some]
  cases x with
  | nan => exact absurd rfl hx
  | signed negative size =>
    rw [text, String.toList_ofList]
    cases negative with
    | true => exact unsignedLiteral?_text true size
    | false => exact (plainLiteral?_text size).trans (unsignedLiteral?_text false size)

end LispCore

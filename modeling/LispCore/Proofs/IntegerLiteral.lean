/-
  LispCore — the texts that are integer literals.

  * `Text.IsDigit`: the digits of all scripts with their values;
  * `Text.IsDigitRun`: groups of digits with one underscore between each two of them;
  * `Text.IsInteger`, `Text.integerLiteral?_eq_some_iff`: the integer literals, and that each
    is taken for its integer and nothing else is taken for one;
  * `SaysInteger`: the text of a setting is a literal of an integer, with any blanks at its ends;
  * `positiveSetting_literals`: a setting is the positive integer that its text says, and the
    default if it says none; so the nesting limit is positive always.
-/
import Mathlib.Data.Nat.Digits.Defs
import LispCore.Environment
import LispCore.Proofs.Rendering
import LispCore.Proofs.SignificantDigits

namespace LispCore

namespace Text

/-! ## Digits -/

/-- A character is the digit of this value in one of the scripts. -/
def IsDigit (c : Char) (d : ℕ) : Prop := d < 10 ∧ ∃ z ∈ zeros, c.toNat = z + d

/-- No character is in the runs of two scripts. -/
theorem eq_of_mem_zeros {y z n : ℕ} (hy : y ∈ zeros) (hz : z ∈ zeros) (hyn : y ≤ n ∧ n < y + 10)
    (hzn : z ≤ n ∧ n < z + 10) : y = z := by
  have hsorted : zeros.Pairwise fun y z => y + 10 ≤ z := by decide
  by_contra hne
  have hapart : zeros.Pairwise fun y z => y + 10 ≤ z ∨ z + 10 ≤ y := hsorted.imp Or.inl
  have : Std.Symm fun y z : ℕ => y + 10 ≤ z ∨ z + 10 ≤ y := ⟨fun _ _ => Or.symm⟩
  have := hapart.forall hy hz hne
  omega

theorem digitValue?_eq_some_iff {c : Char} {d : ℕ} : digitValue? c = some d ↔ IsDigit c d := by
  rw [digitValue?, Option.map_eq_some_iff]
  constructor
  · rintro ⟨z, hfind, rfl⟩
    have hmem := List.mem_of_find?_eq_some hfind
    have hrange : z ≤ c.toNat ∧ c.toNat < z + 10 := by simpa using List.find?_some hfind
    exact ⟨by omega, z, hmem, by omega⟩
  · rintro ⟨hd, z, hmem, hc⟩
    have hrange : z ≤ c.toNat ∧ c.toNat < z + 10 := by omega
    have hsome : (zeros.find? fun z => z ≤ c.toNat ∧ c.toNat < z + 10).isSome :=
      List.find?_isSome.2 ⟨z, hmem, by simpa using hrange⟩
    obtain ⟨y, hfind⟩ := Option.isSome_iff_exists.1 hsome
    have hy : y ≤ c.toNat ∧ c.toNat < y + 10 := by simpa using List.find?_some hfind
    obtain rfl := eq_of_mem_zeros (List.mem_of_find?_eq_some hfind) hmem hy hrange
    exact ⟨y, hfind, by omega⟩

theorem IsDigit.ne {c e : Char} {d : ℕ} (h : IsDigit c d) (he : digitValue? e = none) : c ≠ e := by
  rintro rfl
  rw [digitValue?_eq_some_iff.2 h] at he
  cases he

theorem IsDigit.not_blank {c : Char} {d : ℕ} (h : IsDigit c d) : ¬ isBlank c := by
  obtain ⟨hd, z, hmem, hc⟩ := h
  -- where the runs of the scripts lie between the blanks
  have hzeros : ∀ z ∈ zeros, z = 0x30 ∨ 0xa0 < z ∧ z + 10 ≤ 0x1680 ∨
      0x1680 < z ∧ z + 10 ≤ 0x2000 ∨ 0x3000 < z := by decide
  have := hzeros z hmem
  simp only [isBlank, Bool.or_eq_true, Bool.and_eq_true, decide_eq_true_eq, beq_iff_eq]
  omega

/-! ## Runs of digits -/

/-- The text is made of groups of digits with one underscore between each two of them, and
    these are the values of its digits. -/
def IsDigitRun (s : List Char) (ds : List ℕ) : Prop :=
  ∃ groups : List (List Char), groups ≠ [] ∧ (∀ g ∈ groups, g ≠ []) ∧
    s = ['_'].intercalate groups ∧ List.Forall₂ IsDigit groups.flatten ds

/-- The first character of the first group is the first one of all. -/
theorem intercalate_cons (separator g : List Char) (c : Char) (groups : List (List Char)) :
    separator.intercalate ((c :: g) :: groups) = c :: separator.intercalate (g :: groups) := by
  cases groups <;> simp [List.intercalate_cons_cons]

section
variable {c : Char} {d : ℕ} {s : List Char} {ds : List ℕ}

theorem isDigitRun_singleton (hc : IsDigit c d) : IsDigitRun [c] [d] :=
  ⟨[[c]], by simp, by simp, by simp, .cons hc .nil⟩

theorem IsDigitRun.cons (hc : IsDigit c d) (h : IsDigitRun s ds) :
    IsDigitRun (c :: s) (d :: ds) := by
  obtain ⟨groups, hne, hgroups, rfl, hds⟩ := h
  obtain ⟨g, groups, rfl⟩ := List.exists_cons_of_ne_nil hne
  refine ⟨(c :: g) :: groups, by simp, ?_, (intercalate_cons _ g c groups).symm, .cons hc hds⟩
  exact List.forall_mem_cons.2 ⟨by simp, (List.forall_mem_cons.1 hgroups).2⟩

theorem IsDigitRun.gap (hc : IsDigit c d) (h : IsDigitRun s ds) :
    IsDigitRun (c :: '_' :: s) (d :: ds) := by
  obtain ⟨groups, hne, hgroups, rfl, hds⟩ := h
  obtain ⟨g, groups, rfl⟩ := List.exists_cons_of_ne_nil hne
  refine ⟨[c] :: g :: groups, by simp, ?_, ?_, .cons hc hds⟩
  · exact List.forall_mem_cons.2 ⟨by simp, hgroups⟩
  · rw [List.intercalate_cons_cons]
    rfl

/-- A run is one digit, or a digit and what is a run again, perhaps after an underscore. -/
theorem digitRun?_cases (h : digitRun? s = some ds) : ∃ c d, IsDigit c d ∧
    (s = [c] ∧ ds = [d] ∨ ∃ rest es, digitRun? rest = some es ∧ ds = d :: es ∧
      (s = c :: rest ∨ s = c :: '_' :: rest)) := by
  unfold digitRun? at h
  split at h
  · cases h
  · obtain ⟨d, hd, rfl⟩ := Option.map_eq_some_iff.1 h
    exact ⟨_, d, digitValue?_eq_some_iff.1 hd, Or.inl ⟨rfl, rfl⟩⟩
  all_goals
    simp only [Option.bind_eq_bind, Option.bind_eq_some_iff, Option.some.injEq] at h
    obtain ⟨d, hd, es, hes, rfl⟩ := h
    exact ⟨_, d, digitValue?_eq_some_iff.1 hd, Or.inr ⟨_, es, hes, rfl, by simp⟩⟩

theorem isDigitRun_of_digitRun? (h : digitRun? s = some ds) : IsDigitRun s ds := by
  induction ds generalizing s with
  | nil => obtain ⟨c, d, -, ⟨-, ⟨⟩⟩ | ⟨_, _, -, ⟨⟩, -⟩⟩ := digitRun?_cases h
  | cons d ds ih =>
    obtain ⟨c, d', hc, ⟨rfl, ⟨⟩⟩ | ⟨rest, es, hrest, ⟨⟩, rfl | rfl⟩⟩ := digitRun?_cases h
    · exact isDigitRun_singleton hc
    · exact (ih hrest).cons hc
    · exact (ih hrest).gap hc

theorem not_blank_of_digitRun? (h : digitRun? s = some ds) : ∀ c ∈ s, ¬ isBlank c := by
  induction ds generalizing s with
  | nil => obtain ⟨c, d, -, ⟨-, ⟨⟩⟩ | ⟨_, _, -, ⟨⟩, -⟩⟩ := digitRun?_cases h
  | cons d ds ih =>
    obtain ⟨c, d', hc, ⟨rfl, ⟨⟩⟩ | ⟨rest, es, hrest, ⟨⟩, rfl | rfl⟩⟩ := digitRun?_cases h
    · exact List.forall_mem_singleton.2 hc.not_blank
    · exact List.forall_mem_cons.2 ⟨hc.not_blank, ih hrest⟩
    · exact List.forall_mem_cons.2 ⟨hc.not_blank, List.forall_mem_cons.2 ⟨by decide, ih hrest⟩⟩

theorem digitRun?_cons {e : Char} {f : ℕ} (hc : IsDigit c d) (he : IsDigit e f) :
    digitRun? (c :: e :: s) = (digitRun? (e :: s)).map (d :: ·) := by
  have hgap : ∀ rest, e :: s ≠ '_' :: rest := by
    rintro rest ⟨⟩
    exact he.ne (by decide) rfl
  rw [digitRun?.eq_4 _ _ (List.cons_ne_nil e s) hgap, digitValue?_eq_some_iff.2 hc]
  cases digitRun? (e :: s) <;> rfl

theorem digitRun?_gap (hc : IsDigit c d) :
    digitRun? (c :: '_' :: s) = (digitRun? s).map (d :: ·) := by
  rw [digitRun?, digitValue?_eq_some_iff.2 hc]
  cases digitRun? s <;> rfl

/-- What is left after a digit is more digits of its group, or nothing, or an underscore and
    other groups. -/
theorem digitRun?_intercalate {g : List Char} {groups : List (List Char)}
    (hall : ∀ g ∈ groups, g ≠ []) (hds : List.Forall₂ IsDigit (c :: g ++ groups.flatten) ds) :
    digitRun? (['_'].intercalate ((c :: g) :: groups)) = some ds := by
  induction ds generalizing c g groups with
  | nil => cases hds
  | cons d ds ih =>
    obtain ⟨hc, hds⟩ := List.forall₂_cons.1 hds
    match g, groups with
    | e :: g, groups =>
      obtain ⟨f, fs, he, -, rfl⟩ := List.forall₂_cons_left_iff.1 hds
      rw [intercalate_cons, intercalate_cons, digitRun?_cons hc he, ← intercalate_cons,
        ih hall hds]
      rfl
    | [], [] =>
      cases hds
      rw [List.intercalate_singleton, digitRun?, digitValue?_eq_some_iff.2 hc]
      rfl
    | [], g :: groups =>
      obtain ⟨hg, hgroups⟩ := List.forall_mem_cons.1 hall
      obtain ⟨e, g, rfl⟩ := List.exists_cons_of_ne_nil hg
      have hrest : digitRun? (['_'].intercalate ((e :: g) :: groups)) = some ds := ih hgroups hds
      rw [List.intercalate_cons_cons, List.append_assoc, List.singleton_append,
        List.singleton_append, digitRun?_gap hc, hrest]
      rfl

/-- **The runs are the texts that are taken for one.** -/
theorem digitRun?_eq_some_iff : digitRun? s = some ds ↔ IsDigitRun s ds := by
  refine ⟨isDigitRun_of_digitRun?, ?_⟩
  rintro ⟨groups, hne, hall, rfl, hds⟩
  obtain ⟨g, groups, rfl⟩ := List.exists_cons_of_ne_nil hne
  obtain ⟨hg, hgroups⟩ := List.forall_mem_cons.1 hall
  obtain ⟨c, g, rfl⟩ := List.exists_cons_of_ne_nil hg
  exact digitRun?_intercalate hgroups hds

/-- A run begins with a digit. -/
theorem IsDigitRun.starts (h : IsDigitRun s ds) : ∃ c rest d, s = c :: rest ∧ IsDigit c d := by
  obtain ⟨c, d, hc, ⟨rfl, -⟩ | ⟨rest, es, -, -, rfl | rfl⟩⟩ :=
    digitRun?_cases (digitRun?_eq_some_iff.2 h)
  all_goals exact ⟨c, _, d, rfl, hc⟩

end

/-! ## Literals -/

/-- The text is a run of at most 4300 digits, which are those of the number. -/
def IsNatural (s : List Char) (n : ℕ) : Prop :=
  ∃ ds, IsDigitRun s ds ∧ ds.length ≤ 4300 ∧ n = Nat.ofDigits 10 ds.reverse

/-- The text is a literal of the integer: digits with or without one sign. -/
inductive IsInteger : List Char → ℤ → Prop
  | unsigned {s : List Char} {n : ℕ} : IsNatural s n → IsInteger s n
  | plus {s : List Char} {n : ℕ} : IsNatural s n → IsInteger ('+' :: s) n
  | minus {s : List Char} {n : ℕ} : IsNatural s n → IsInteger ('-' :: s) (-n)

theorem natOfDigits_eq (ds : List ℕ) : natOfDigits ds = Nat.ofDigits 10 ds.reverse := by
  rw [natOfDigits, Nat.ofDigits_eq_foldr, List.foldr_reverse]
  simp [add_comm]

theorem naturalLiteral?_eq_some_iff {s : List Char} {n : ℕ} :
    naturalLiteral? s = some n ↔ IsNatural s n := by
  simp only [naturalLiteral?, Option.bind_eq_bind, Option.bind_eq_some_iff,
    Option.ite_none_right_eq_some, Option.some.injEq, digitRun?_eq_some_iff, natOfDigits_eq,
    maxLiteralDigits, IsNatural]
  exact exists_congr fun ds => and_congr_right' (and_congr_right' eq_comm)

theorem integerLiteral?_plus (s : List Char) :
    integerLiteral? ('+' :: s) = (naturalLiteral? s).map fun n : ℕ => (n : ℤ) := by
  rw [integerLiteral?]
  cases naturalLiteral? s <;> rfl

theorem integerLiteral?_minus (s : List Char) :
    integerLiteral? ('-' :: s) = (naturalLiteral? s).map fun n : ℕ => -(n : ℤ) := by
  rw [integerLiteral?]
  cases naturalLiteral? s <;> rfl

theorem integerLiteral?_unsigned {s : List Char} (hplus : ∀ rest, s ≠ '+' :: rest)
    (hminus : ∀ rest, s ≠ '-' :: rest) :
    integerLiteral? s = (naturalLiteral? s).map fun n : ℕ => (n : ℤ) := by
  rw [integerLiteral?.eq_3 s hplus hminus]
  cases naturalLiteral? s <;> rfl

/-- A natural number begins with no sign. -/
theorem IsNatural.ne_cons {s : List Char} {n : ℕ} (h : IsNatural s n) {c : Char}
    (hc : digitValue? c = none) (rest : List Char) : s ≠ c :: rest := by
  obtain ⟨ds, hrun, -⟩ := h
  obtain ⟨e, rest', d, rfl, he⟩ := hrun.starts
  rintro ⟨⟩
  exact he.ne hc rfl

/-- **The literals are the texts that are taken for one**, each for its integer. -/
theorem integerLiteral?_eq_some_iff {s : List Char} {n : ℤ} :
    integerLiteral? s = some n ↔ IsInteger s n := by
  constructor
  · intro h
    by_cases hplus : ∃ rest, s = '+' :: rest
    · obtain ⟨rest, rfl⟩ := hplus
      rw [integerLiteral?_plus, Option.map_eq_some_iff] at h
      obtain ⟨m, hm, rfl⟩ := h
      exact .plus (naturalLiteral?_eq_some_iff.1 hm)
    by_cases hminus : ∃ rest, s = '-' :: rest
    · obtain ⟨rest, rfl⟩ := hminus
      rw [integerLiteral?_minus, Option.map_eq_some_iff] at h
      obtain ⟨m, hm, rfl⟩ := h
      exact .minus (naturalLiteral?_eq_some_iff.1 hm)
    · rw [integerLiteral?_unsigned (not_exists.1 hplus) (not_exists.1 hminus),
        Option.map_eq_some_iff] at h
      obtain ⟨m, hm, rfl⟩ := h
      exact .unsigned (naturalLiteral?_eq_some_iff.1 hm)
  · intro h
    cases h with
    | unsigned h =>
      rw [integerLiteral?_unsigned (h.ne_cons (by decide)) (h.ne_cons (by decide)),
        naturalLiteral?_eq_some_iff.2 h]
      rfl
    | plus h =>
      rw [integerLiteral?_plus, naturalLiteral?_eq_some_iff.2 h]
      rfl
    | minus h =>
      rw [integerLiteral?_minus, naturalLiteral?_eq_some_iff.2 h]
      rfl

theorem IsNatural.not_blank {s : List Char} {n : ℕ} (h : IsNatural s n) :
    ∀ c ∈ s, ¬ isBlank c :=
  let ⟨_, hrun, _⟩ := h
  not_blank_of_digitRun? (digitRun?_eq_some_iff.2 hrun)

theorem IsInteger.not_blank {s : List Char} {n : ℤ} (h : IsInteger s n) :
    ∀ c ∈ s, ¬ isBlank c := by
  cases h with
  | unsigned h => exact h.not_blank
  | plus h | minus h => exact List.forall_mem_cons.2 ⟨by decide, h.not_blank⟩

/-- The digits that a number is written with, and zeros in front of them, are a literal. -/
theorem isNatural_digits {k n : ℕ} (h : k + (digits n).length ≤ 4300) :
    IsNatural (List.replicate k '0' ++ digits n) n := by
  have hvalue : natOfText (List.replicate k '0' ++ digits n) = n := by
    rw [natOfText_zeros_append, natOfText_digits]
  have hlength : (List.replicate k '0' ++ digits n).length ≤ 4300 := by simpa using h
  have hne : List.replicate k '0' ++ digits n ≠ [] :=
    List.append_ne_nil_of_right_ne_nil _ (digits_ne_nil n)
  have hdigits : ∀ c ∈ List.replicate k '0' ++ digits n, IsDigit c (digitNat c) := by
    intro c hc
    rcases List.mem_append.1 hc with hc | hc
    · rw [List.eq_of_mem_replicate hc]
      exact digitValue?_eq_some_iff.1 (digitValue?_of_isDigit rfl)
    · exact digitValue?_eq_some_iff.1 (digitValue?_of_isDigit (isDigit_of_mem_digits c hc))
  generalize List.replicate k '0' ++ digits n = s at *
  refine ⟨s.map digitNat, ⟨[s], by simp, by simpa using hne, by simp, ?_⟩, by simpa, ?_⟩
  · rw [List.flatten_singleton, List.forall₂_map_right_iff, List.forall₂_same]
    exact hdigits
  · rw [← natOfDigits_eq, ← hvalue]
    rfl

end Text

/-! ## Settings -/

/-- The text of a setting is a literal of the integer, with any blanks at the ends. -/
def SaysInteger (raw : Option String) (n : ℤ) : Prop :=
  ∃ before literal after : String, raw = some (before ++ literal ++ after) ∧
    (∀ c ∈ before.toList, Text.isBlank c) ∧ (∀ c ∈ after.toList, Text.isBlank c) ∧
    Text.IsInteger literal.toList n

theorem saysInteger_iff {raw : Option String} {n : ℤ} :
    SaysInteger raw n ↔
      (raw.bind fun text => Text.integerLiteral? (Text.strip text.toList)) = some n := by
  constructor
  · rintro ⟨before, literal, after, rfl, hbefore, hafter, hliteral⟩
    rw [Option.bind_some, String.toList_append, String.toList_append,
      Text.strip_append hbefore hliteral.not_blank hafter]
    exact Text.integerLiteral?_eq_some_iff.2 hliteral
  · intro h
    obtain ⟨text, rfl, h⟩ := Option.bind_eq_some_iff.1 h
    obtain ⟨before, after, htext, hbefore, hafter⟩ := Text.exists_strip text
    refine ⟨before, _, after, congrArg some htext, hbefore, hafter, ?_⟩
    rw [String.toList_ofList]
    exact Text.integerLiteral?_eq_some_iff.1 h

section
variable {raw : Option String} {default : ℤ}

theorem positiveSetting_of_literal {n : ℤ} (h : SaysInteger raw n) (hn : 0 < n) :
    positiveSetting raw default = n := by
  rw [positiveSetting, saysInteger_iff.1 h]
  exact if_pos hn

theorem positiveSetting_of_no_literal (h : ∀ n, 0 < n → ¬ SaysInteger raw n) :
    positiveSetting raw default = default := by
  rw [positiveSetting]
  split
  · next n hn => exact if_neg fun hpos => h n hpos (saysInteger_iff.2 hn)
  · rfl

theorem positiveSetting_pos (raw : Option String) (h : 0 < default) :
    0 < positiveSetting raw default := by
  by_cases hsaid : ∃ n, 0 < n ∧ SaysInteger raw n
  · obtain ⟨n, hn, hsaid⟩ := hsaid
    rwa [positiveSetting_of_literal hsaid hn]
  · rwa [positiveSetting_of_no_literal fun n hn hsaid' => hsaid ⟨n, hn, hsaid'⟩]

end

/-- The number in digits, with so many zeros in front of them. -/
def zerosAndDigits (zeros n : ℕ) : String :=
  String.ofList (List.replicate zeros '0' ++ digits n)

theorem saysInteger_digits {n k : ℕ} (h : k + (digits n).length ≤ 4300) {before sign after : String}
    (hbefore : ∀ c ∈ before.toList, Text.isBlank c) (hsign : sign = "" ∨ sign = "+")
    (hafter : ∀ c ∈ after.toList, Text.isBlank c) :
    SaysInteger (some (before ++ (sign ++ zerosAndDigits k n) ++ after)) n := by
  refine ⟨before, _, after, rfl, hbefore, hafter, ?_⟩
  rw [String.toList_append, zerosAndDigits, String.toList_ofList]
  rcases hsign with rfl | rfl
  · exact .unsigned (Text.isNatural_digits h)
  · exact .plus (Text.isNatural_digits h)

namespace Environment

theorem coe_depthLimit (env : Environment) :
    (env.depthLimit : ℤ) = positiveSetting env.maxDepth 500 :=
  Int.toNat_of_nonneg (positiveSetting_pos env.maxDepth (by decide)).le

theorem depthLimit_pos (env : Environment) : 1 ≤ env.depthLimit := by
  have hpos := positiveSetting_pos env.maxDepth (show (0 : ℤ) < 500 by decide)
  rw [← coe_depthLimit] at hpos
  exact Int.natCast_pos.1 hpos

end Environment

/-- **A setting is the positive integer of its text.**  If the text, between blanks, is a literal
    of a positive integer, the setting is this integer, and it is the default if there is no
    such text, whatever there is instead.  So a positive number with zeros in front, a plus sign
    or blanks around it is taken for itself; and the nesting limit is one at least in every
    environment, so that what is no list has a text and can be compared always. -/
theorem positiveSetting_literals (raw : Option String) (default : ℤ) :
    (∀ n, 0 < n → SaysInteger raw n → positiveSetting raw default = n) ∧
    ((∀ n, 0 < n → ¬ SaysInteger raw n) → positiveSetting raw default = default) ∧
    (∀ (n k : ℕ) (before sign after : String), 0 < n → k + (digits n).length ≤ 4300 →
      (∀ c ∈ before.toList, Text.isBlank c) → (sign = "" ∨ sign = "+") →
      (∀ c ∈ after.toList, Text.isBlank c) →
      positiveSetting (some (before ++ (sign ++ zerosAndDigits k n) ++ after)) default = n) ∧
    ∀ env : Environment, (env.depthLimit : ℤ) = positiveSetting env.maxDepth 500 ∧
      1 ≤ env.depthLimit ∧
      (∀ (mode : Mode) (v : Value), (∀ xs, v ≠ .list xs) → ¬ v.Alien →
        ∃ t, v.text mode env.depthLimit = .ok t) ∧
      ∀ a b : Value, (∀ xs ys, a = .list xs → b ≠ .list ys) → ¬ a.Alien → ¬ b.Alien →
        ∃ r, a.equal env.depthLimit b = .ok r := by
  refine ⟨fun n hn h => positiveSetting_of_literal h hn, positiveSetting_of_no_literal,
    fun n k before sign after hn hk hbefore hsign hafter => ?_,
    fun env => ⟨env.coe_depthLimit, env.depthLimit_pos, fun mode v hv h => ?_,
      fun a b hab ha hb => ?_⟩⟩
  · have hpos : 0 < (n : ℤ) := Int.natCast_pos.2 hn
    exact positiveSetting_of_literal (saysInteger_digits hk hbefore hsign hafter) hpos
  · rw [Value.text, Value.render_atom (Nat.zero_le _) (Nat.zero_le _) hv]
    exact Value.exists_text_atom mode hv h
  · obtain ⟨r, hr, -⟩ := Value.equalAt_atoms (Nat.zero_le env.depthLimit) (Nat.zero_le _) ha hb hab
    exact ⟨r, hr⟩

/-- Digits of three scripts with a zero in front and an underscore, after a sign and between blanks
    of two sorts; and digits with two underscores between them, which are no literal. -/
theorem positiveSetting_literals_mixed :
    (SaysInteger (some "\u3000+0\u0661_\uFF12\x1f") 12 ∧
      positiveSetting (some "\u3000+0\u0661_\uFF12\x1f") 7 = 12) ∧
    (∀ n, 0 < n → ¬ SaysInteger (some "1__2") n) ∧ positiveSetting (some "1__2") 7 = 7 := by
  have hrun : Text.IsDigitRun ['0', '\u0661', '_', '\uFF12'] [0, 1, 2] :=
    ⟨[['0', '\u0661'], ['\uFF12']], by decide, by decide, by decide,
      .cons ⟨by decide, 0x30, by simp [Text.zeros], by decide⟩
        (.cons ⟨by decide, 0x660, by simp [Text.zeros], by decide⟩
          (.cons ⟨by decide, 0xff10, by simp [Text.zeros], by decide⟩ .nil))⟩
  have hliteral : Text.IsInteger "+0\u0661_\uFF12".toList (12 : ℕ) :=
    .plus ⟨[0, 1, 2], hrun, by decide, by decide⟩
  have hsaid : SaysInteger (some "\u3000+0\u0661_\uFF12\x1f") 12 :=
    ⟨"\u3000", "+0\u0661_\uFF12", "\x1f", by decide, by simp [Text.isBlank],
      by simp [Text.isBlank], hliteral⟩
  have hnone : ∀ n, 0 < n → ¬ SaysInteger (some "1__2") n := by
    intro n _ h
    cases (saysInteger_iff.1 h : none = some n)
  exact ⟨⟨hsaid, (positiveSetting_literals _ 7).1 12 (by decide) hsaid⟩, hnone,
    (positiveSetting_literals _ 7).2.1 hnone⟩

end LispCore

/-
  LispCore — decoding undoes encoding.

  A decoder is strict if the bytes it accepts are those of some text, and it then gives that
  text.  For a decoder that goes character by character this is a matter of single characters:
  it must read back the bytes of each, whatever follows, and accept nothing that begins
  otherwise.

  * `Inverts`, `Inverts.eq_ok_iff`: what this asks of a decoder, and that it makes it strict;
  * `Utf8.CharBytes`, `Utf8.charBytes_iff`: the bytes that the decoder takes for a character
    are those of the character.  So overlong forms and surrogates are left out;
  * `Utf8.decodeFrom_eq_ok_iff`, `Utf16.decodeFrom_eq_ok_iff`: both decoders are strict.
-/
import LispCore.Encoding
import Mathlib.Data.Nat.Init
import Mathlib.Tactic.Common

namespace LispCore

/-! ## Decoders that go character by character -/

theorem map_eq_ok_iff {ε α β : Type} {f : α → β} {x : Except ε α} {b : β} :
    x.map f = .ok b ↔ ∃ a, x = .ok a ∧ f a = b := by
  cases x <;> simp [Except.map]

theorem mapError_eq_ok_iff {ε ε' α : Type} {f : ε → ε'} {x : Except ε α} {a : α} :
    x.mapError f = .ok a ↔ x = .ok a := by
  cases x <;> simp [Except.mapError]

/-- The decoder reads `CharBytes` from whatever position: bytes of a character as that
    character, and nothing that does not begin with bytes of one. -/
structure Inverts (CharBytes : Char → List UInt8 → Prop)
    (decode : ℕ → List UInt8 → Except Malformed (List Char)) : Prop where
  ne_nil {c : Char} {bytes : List UInt8} : CharBytes c bytes → bytes ≠ []
  nil (position : ℕ) : decode position [] = .ok []
  append (position : ℕ) {c : Char} {bytes : List UInt8} (h : CharBytes c bytes)
    (rest : List UInt8) : decode position (bytes ++ rest) =
      (decode (position + bytes.length) rest).map (c :: ·)
  begins (position : ℕ) {bytes : List UInt8} : bytes ≠ [] →
    (∃ c first rest, CharBytes c first ∧ bytes = first ++ rest) ∨
      ∃ m, decode position bytes = .error m

/-- **A decoder that reads the bytes of characters undoes the encoding of texts, and is
    strict.** -/
theorem Inverts.eq_ok_iff {CharBytes : Char → List UInt8 → Prop} {encode : Char → List UInt8}
    {decode : ℕ → List UInt8 → Except Malformed (List Char)} (h : Inverts CharBytes decode)
    (hencode : ∀ {c bytes}, CharBytes c bytes ↔ bytes = encode c) {position : ℕ}
    {bytes : List UInt8} {t : List Char} :
    decode position bytes = .ok t ↔ bytes = t.flatMap encode := by
  constructor
  · -- The bytes of a character are some, so fewer come after them.
    induction hn : bytes.length using Nat.strong_induction_on generalizing position bytes t with
    | _ n ih =>
      intro ht
      by_cases hbytes : bytes = []
      · subst hbytes
        cases (h.nil position).symm.trans ht
        rfl
      rcases h.begins position hbytes with ⟨c, first, rest, hfirst, rfl⟩ | ⟨m, hm⟩
      · rw [h.append position hfirst, map_eq_ok_iff] at ht
        obtain ⟨t, hrest, rfl⟩ := ht
        have hlength : rest.length < n := by
          have := List.length_pos_iff.2 (h.ne_nil hfirst)
          rw [← hn, List.length_append]
          omega
        rw [List.flatMap_cons, ← hencode.1 hfirst, ih _ hlength rfl hrest]
      · cases hm.symm.trans ht
  · rintro rfl
    induction t generalizing position with
    | nil => exact h.nil position
    | cons c t ih =>
      rw [List.flatMap_cons, h.append position (hencode.2 rfl), ih]
      rfl

theorem toNat_charOfNat {n : ℕ} (h : n.isValidChar) : (Char.ofNat n).toNat = n := by
  rw [Char.ofNat, dif_pos h]
  rfl

/-! ## UTF-8 -/

namespace Utf8

theorem isTail_iff {b : UInt8} : isTail b ↔ 0x80 ≤ b.toNat ∧ b.toNat < 0xC0 := by
  simp [isTail, UInt8.le_iff_toNat_le, UInt8.lt_iff_toNat_lt]

theorem isSecondOfThree_iff {a b : UInt8} : isSecondOfThree a b ↔
    isTail b ∧ (a.toNat = 0xE0 → 0xA0 ≤ b.toNat) ∧ (a.toNat = 0xED → b.toNat < 0xA0) := by
  simp [isSecondOfThree, UInt8.le_iff_toNat_le, UInt8.lt_iff_toNat_lt, ← UInt8.toNat_inj,
    imp_iff_not_or, and_assoc]

theorem isSecondOfFour_iff {a b : UInt8} : isSecondOfFour a b ↔
    isTail b ∧ (a.toNat = 0xF0 → 0x90 ≤ b.toNat) ∧ (a.toNat = 0xF4 → b.toNat < 0x90) := by
  simp [isSecondOfFour, UInt8.le_iff_toNat_le, UInt8.lt_iff_toNat_lt, ← UInt8.toNat_inj,
    imp_iff_not_or, and_assoc]

/-- The decoder takes the bytes for the character. -/
inductive CharBytes : Char → List UInt8 → Prop
  | one {a} : a.toNat < 0x80 → CharBytes (Char.ofNat a.toNat) [a]
  | two {a b} : 0xC2 ≤ a.toNat → a.toNat < 0xE0 → isTail b → CharBytes (char2 a b) [a, b]
  | three {a b c} : 0xE0 ≤ a.toNat → a.toNat < 0xF0 → isSecondOfThree a b → isTail c →
      CharBytes (char3 a b c) [a, b, c]
  | four {a b c d} : 0xF0 ≤ a.toNat → a.toNat ≤ 0xF4 → isSecondOfFour a b → isTail c →
      isTail d → CharBytes (char4 a b c d) [a, b, c, d]

/-- The bytes of the character with a code point. -/
theorem encodeChar_ofNat {n : ℕ} (h : n.isValidChar) : String.utf8EncodeChar (Char.ofNat n) =
    if n ≤ 127 then [UInt8.ofNat n]
    else if n ≤ 2047 then [UInt8.ofNat (n / 64 % 32 + 192), UInt8.ofNat (n % 64 + 128)]
    else if n ≤ 65535 then
      [UInt8.ofNat (n / 4096 % 16 + 224), UInt8.ofNat (n / 64 % 64 + 128),
        UInt8.ofNat (n % 64 + 128)]
    else
      [UInt8.ofNat (n / 262144 % 8 + 240), UInt8.ofNat (n / 4096 % 64 + 128),
        UInt8.ofNat (n / 64 % 64 + 128), UInt8.ofNat (n % 64 + 128)] := by
  have hn : (Char.ofNat n).val.toNat = n := toNat_charOfNat h
  rw [String.utf8EncodeChar, hn]

/-- A byte is made from the numbers that differ from it by a multiple of 256. -/
theorem eq_ofNat_iff {n : ℕ} {a : UInt8} : a = UInt8.ofNat n ↔ a.toNat = n % 256 := by
  rw [← UInt8.toNat_inj, UInt8.toNat_ofNat']

theorem CharBytes.eq_encodeChar {c : Char} {bytes : List UInt8} (h : CharBytes c bytes) :
    bytes = String.utf8EncodeChar c := by
  cases h with
  | @one a ha =>
    rw [encodeChar_ofNat (by omega), if_pos (by omega), UInt8.ofNat_toNat]
  | @two a b ha ha' hb =>
    rw [isTail_iff] at hb
    rw [char2, tailBits, encodeChar_ofNat (by omega), if_neg (by omega), if_pos (by omega)]
    simp only [List.cons.injEq, eq_ofNat_iff, and_true]
    omega
  | @three a b c ha ha' hb hc =>
    rw [isSecondOfThree_iff, isTail_iff] at hb
    rw [isTail_iff] at hc
    rw [char3, tailBits, tailBits, encodeChar_ofNat (by omega), if_neg (by omega),
      if_neg (by omega), if_pos (by omega)]
    simp only [List.cons.injEq, eq_ofNat_iff, and_true]
    omega
  | @four a b c d ha ha' hb hc hd =>
    rw [isSecondOfFour_iff, isTail_iff] at hb
    rw [isTail_iff] at hc hd
    rw [char4, tailBits, tailBits, tailBits, encodeChar_ofNat (by omega), if_neg (by omega),
      if_neg (by omega), if_neg (by omega)]
    simp only [List.cons.injEq, eq_ofNat_iff, and_true]
    omega

/-- The byte that continues a character with the six lowest bits of a number. -/
theorem tail_ofNat (n : ℕ) : (UInt8.ofNat (n % 64 + 128)).toNat = n % 64 + 128 ∧
    isTail (UInt8.ofNat (n % 64 + 128)) ∧ tailBits (UInt8.ofNat (n % 64 + 128)) = n % 64 := by
  have h := UInt8.toNat_ofNat_of_lt' (show n % 64 + 128 < 256 by omega)
  refine ⟨h, isTail_iff.2 ?_, ?_⟩
  · omega
  · rw [tailBits, h]
    omega

theorem charBytes_encodeChar (c : Char) : CharBytes c (String.utf8EncodeChar c) := by
  obtain ⟨n, hn, rfl⟩ : ∃ n, n.isValidChar ∧ Char.ofNat n = c := ⟨c.toNat, c.valid, c.ofNat_toNat⟩
  rw [encodeChar_ofNat hn]
  obtain ⟨ht, htail, hbits⟩ := tail_ofNat n
  obtain ⟨ht', htail', hbits'⟩ := tail_ofNat (n / 64)
  obtain ⟨ht'', htail'', hbits''⟩ := tail_ofNat (n / 4096)
  split_ifs with h₁ h₂ h₃
  · have ha := UInt8.toNat_ofNat_of_lt' (show n < 256 by omega)
    have h := CharBytes.one (a := UInt8.ofNat n) (by omega)
    rwa [ha] at h
  · have ha := UInt8.toNat_ofNat_of_lt' (show n / 64 % 32 + 192 < 256 by omega)
    have h := CharBytes.two (a := UInt8.ofNat (n / 64 % 32 + 192)) (by omega) (by omega) htail
    rw [char2, ha, hbits] at h
    convert h
    omega
  · have ha := UInt8.toNat_ofNat_of_lt' (show n / 4096 % 16 + 224 < 256 by omega)
    have hsecond : isSecondOfThree (UInt8.ofNat (n / 4096 % 16 + 224))
        (UInt8.ofNat (n / 64 % 64 + 128)) := by
      refine isSecondOfThree_iff.2 ⟨htail', ?_, ?_⟩
      · omega
      · omega
    have h := CharBytes.three (by omega) (by omega) hsecond htail
    rw [char3, ha, hbits, hbits'] at h
    convert h
    omega
  · have ha := UInt8.toNat_ofNat_of_lt' (show n / 262144 % 8 + 240 < 256 by omega)
    have hsecond : isSecondOfFour (UInt8.ofNat (n / 262144 % 8 + 240))
        (UInt8.ofNat (n / 4096 % 64 + 128)) := by
      refine isSecondOfFour_iff.2 ⟨htail'', ?_, ?_⟩
      · omega
      · omega
    have h := CharBytes.four (by omega) (by omega) hsecond htail' htail
    rw [char4, ha, hbits, hbits', hbits''] at h
    convert h
    omega

/-- **The decoder takes for a character just the bytes of it.** -/
theorem charBytes_iff {c : Char} {bytes : List UInt8} :
    CharBytes c bytes ↔ bytes = String.utf8EncodeChar c :=
  ⟨CharBytes.eq_encodeChar, fun h => h ▸ charBytes_encodeChar c⟩

/-- What the decoder asks of the first byte of several. -/
theorem starts_iff {a : UInt8} :
    ¬ a < 0x80 ∧ ¬ (decide (a < 0xC2) || decide (0xF4 < a)) = true ↔
      0xC2 ≤ a.toNat ∧ a.toNat ≤ 0xF4 := by
  simp only [Bool.or_eq_true, decide_eq_true_eq, UInt8.lt_iff_toNat_lt, UInt8.reduceToNat]
  omega

theorem decodeFrom_append (position : ℕ) {c : Char} {bytes : List UInt8} (h : CharBytes c bytes)
    (rest : List UInt8) : decodeFrom position (bytes ++ rest) =
      (decodeFrom (position + bytes.length) rest).map (c :: ·) := by
  rw [decodeFrom.eq_def]
  cases h with
  | @one a ha => exact if_pos (UInt8.lt_iff_toNat_lt.2 ha)
  | @two a b ha ha' hb =>
    obtain ⟨hone, hstarts⟩ := starts_iff.2 ⟨ha, by omega⟩
    have htwo : a < 0xE0 := UInt8.lt_iff_toNat_lt.2 ha'
    simp only [List.cons_append, List.nil_append, if_neg hone, if_neg hstarts, if_pos htwo,
      if_pos hb, List.length_cons, List.length_nil]
  | @three a b c ha ha' hb hc =>
    obtain ⟨hone, hstarts⟩ := starts_iff.2 ⟨(by omega : 0xC2 ≤ a.toNat), by omega⟩
    have htwo : ¬ a < 0xE0 := UInt8.not_lt.2 (UInt8.le_iff_toNat_le.2 ha)
    have hthree : a < 0xF0 := UInt8.lt_iff_toNat_lt.2 ha'
    simp only [List.cons_append, List.nil_append, if_neg hone, if_neg hstarts, if_neg htwo,
      if_pos hthree, if_pos hb, if_pos hc, List.length_cons, List.length_nil]
  | @four a b c d ha ha' hb hc hd =>
    obtain ⟨hone, hstarts⟩ := starts_iff.2 ⟨(by omega : 0xC2 ≤ a.toNat), ha'⟩
    have hthree : ¬ a < 0xF0 := UInt8.not_lt.2 (UInt8.le_iff_toNat_le.2 ha)
    have htwo : ¬ a < 0xE0 := fun h => hthree (UInt8.lt_trans h (by decide))
    simp only [List.cons_append, List.nil_append, if_neg hone, if_neg hstarts, if_neg htwo,
      if_neg hthree, if_pos hb, if_pos hc, if_pos hd, List.length_cons, List.length_nil]

/-- What the decoder does not refuse begins with the bytes it takes for some character. -/
theorem begins_or_fails (position : ℕ) {bytes : List UInt8} (h : bytes ≠ []) :
    (∃ c first rest, CharBytes c first ∧ bytes = first ++ rest) ∨
      ∃ m, decodeFrom position bytes = .error m := by
  fun_cases decodeFrom position bytes
  case case1 => exact absurd rfl h
  case case2 a rest ha => exact .inl ⟨_, [a], rest, .one (UInt8.lt_iff_toNat_lt.1 ha), rfl⟩
  case case5 a hone hstarts b rest ha hb =>
    rw [UInt8.lt_iff_toNat_lt] at ha
    exact .inl ⟨_, [a, b], rest, .two (starts_iff.1 ⟨hone, hstarts⟩).1 ha hb, rfl⟩
  case case8 a _ _ b ha ha' hb c rest hc =>
    rw [UInt8.not_lt, UInt8.le_iff_toNat_le] at ha
    rw [UInt8.lt_iff_toNat_lt] at ha'
    exact .inl ⟨_, [a, b, c], rest, .three ha ha' hb hc, rfl⟩
  case case13 a hone hstarts b _ ha hb c hc d rest hd =>
    rw [UInt8.not_lt, UInt8.le_iff_toNat_le] at ha
    exact .inl ⟨_, [a, b, c, d], rest, .four ha (starts_iff.1 ⟨hone, hstarts⟩).2 hb hc hd, rfl⟩
  all_goals exact .inr ⟨_, rfl⟩

theorem inverts : Inverts CharBytes decodeFrom where
  ne_nil h := by cases h <;> exact List.cons_ne_nil _ _
  nil _ := by rw [decodeFrom]
  append := decodeFrom_append
  begins := begins_or_fails

theorem decodeFrom_eq_ok_iff {position : ℕ} {bytes : List UInt8} {t : List Char} :
    decodeFrom position bytes = .ok t ↔ bytes = encode t :=
  inverts.eq_ok_iff charBytes_iff

end Utf8

/-! ## UTF-16 -/

namespace Utf16

theorem isHigh_iff {u : ℕ} : isHigh u ↔ 0xD800 ≤ u ∧ u < 0xDC00 := by
  simp [isHigh]

theorem isLow_iff {u : ℕ} : isLow u ↔ 0xDC00 ≤ u ∧ u < 0xE000 := by
  simp [isLow]

theorem Order.unit_lt (order : Order) (a b : UInt8) : order.unit a b < 0x10000 := by
  have ha := a.toNat_lt
  have hb := b.toNat_lt
  cases order <;> (rw [unit]; omega)

theorem Order.bytes_unit (order : Order) (a b : UInt8) :
    order.bytes (order.unit a b) = [a, b] := by
  have ha := a.toNat_lt
  have hb := b.toNat_lt
  cases order with
  | little =>
    have hlow : (a.toNat + 256 * b.toNat) % 256 = a.toNat := by omega
    have hhigh : (a.toNat + 256 * b.toNat) / 256 = b.toNat := by omega
    rw [unit, bytes, hlow, hhigh, UInt8.ofNat_toNat, UInt8.ofNat_toNat]
  | big =>
    have hlow : (256 * a.toNat + b.toNat) % 256 = b.toNat := by omega
    have hhigh : (256 * a.toNat + b.toNat) / 256 = a.toNat := by omega
    rw [unit, bytes, hlow, hhigh, UInt8.ofNat_toNat, UInt8.ofNat_toNat]

/-- Every unit is that of two bytes. -/
theorem Order.exists_bytes (order : Order) {u : ℕ} (hu : u < 0x10000) :
    ∃ a b, order.unit a b = u := by
  have hlow := UInt8.toNat_ofNat_of_lt' (show u % 256 < 256 by omega)
  have hhigh := UInt8.toNat_ofNat_of_lt' (show u / 256 < 256 by omega)
  cases order with
  | little =>
    refine ⟨UInt8.ofNat (u % 256), UInt8.ofNat (u / 256), ?_⟩
    rw [unit, hlow, hhigh]
    omega
  | big =>
    refine ⟨UInt8.ofNat (u / 256), UInt8.ofNat (u % 256), ?_⟩
    rw [unit, hlow, hhigh]
    omega

theorem units_ofNat {u : ℕ} (hu : u < 0x10000) (hlow : ¬ isLow u) (hhigh : ¬ isHigh u) :
    units (Char.ofNat u) = [u] := by
  rw [isLow_iff] at hlow
  rw [isHigh_iff] at hhigh
  rw [units, toNat_charOfNat (by omega)]
  exact if_pos hu

theorem units_pairChar {high low : ℕ} (hhigh : isHigh high) (hlow : isLow low) :
    units (pairChar high low) = [high, low] := by
  rw [isHigh_iff] at hhigh
  rw [isLow_iff] at hlow
  have hhigh' : (0x10000 + (high - 0xD800) * 0x400 + (low - 0xDC00) - 0x10000) / 0x400 =
      high - 0xD800 := by omega
  have hlow' : (0x10000 + (high - 0xD800) * 0x400 + (low - 0xDC00) - 0x10000) % 0x400 =
      low - 0xDC00 := by omega
  rw [units, pairChar, toNat_charOfNat (by omega), if_neg (by omega), hhigh', hlow',
    Nat.add_sub_cancel' hhigh.1, Nat.add_sub_cancel' hlow.1]

/-- The decoder takes the bytes for the character. -/
inductive CharBytes (order : Order) : Char → List UInt8 → Prop
  | one {a b} : ¬ isLow (order.unit a b) → ¬ isHigh (order.unit a b) →
      CharBytes order (Char.ofNat (order.unit a b)) [a, b]
  | pair {a b c d} : isHigh (order.unit a b) → isLow (order.unit c d) →
      CharBytes order (pairChar (order.unit a b) (order.unit c d)) [a, b, c, d]

/-- The bytes of a character. -/
def encodeChar (order : Order) (c : Char) : List UInt8 := (units c).flatMap order.bytes

theorem CharBytes.eq_encodeChar {order : Order} {c : Char} {bytes : List UInt8}
    (h : CharBytes order c bytes) : bytes = encodeChar order c := by
  cases h with
  | @one a b hlow hhigh =>
    rw [encodeChar, units_ofNat (order.unit_lt a b) hlow hhigh, List.flatMap_singleton,
      order.bytes_unit]
  | @pair a b c d hhigh hlow =>
    rw [encodeChar, units_pairChar hhigh hlow, List.flatMap_cons, List.flatMap_singleton,
      order.bytes_unit, order.bytes_unit]
    rfl

theorem charBytes_encodeChar (order : Order) (c : Char) :
    CharBytes order c (encodeChar order c) := by
  have hvalid : c.toNat.isValidChar := c.valid
  by_cases hc : c.toNat < 0x10000
  · obtain ⟨a, b, hunit⟩ := order.exists_bytes hc
    have h : CharBytes order (Char.ofNat (order.unit a b)) [a, b] := by
      refine .one ?_ ?_
      · rw [isLow_iff]
        omega
      · rw [isHigh_iff]
        omega
    rw [hunit, c.ofNat_toNat] at h
    exact h.eq_encodeChar ▸ h
  · obtain ⟨a, b, hhigh⟩ := order.exists_bytes
      (u := 0xD800 + (c.toNat - 0x10000) / 0x400) (by omega)
    obtain ⟨a', b', hlow⟩ := order.exists_bytes
      (u := 0xDC00 + (c.toNat - 0x10000) % 0x400) (by omega)
    have h : CharBytes order (pairChar (order.unit a b) (order.unit a' b')) [a, b, a', b'] :=
      .pair (isHigh_iff.2 (by omega)) (isLow_iff.2 (by omega))
    have hchar : pairChar (order.unit a b) (order.unit a' b') = c := by
      rw [pairChar, hhigh, hlow, ← Char.toNat_inj, toNat_charOfNat (by omega)]
      omega
    rw [hchar] at h
    exact h.eq_encodeChar ▸ h

/-- **The decoder takes for a character just the bytes of it.** -/
theorem charBytes_iff (order : Order) {c : Char} {bytes : List UInt8} :
    CharBytes order c bytes ↔ bytes = encodeChar order c :=
  ⟨CharBytes.eq_encodeChar, fun h => h ▸ charBytes_encodeChar order c⟩

theorem decodeFrom_append (order : Order) (position : ℕ) {c : Char} {bytes : List UInt8}
    (h : CharBytes order c bytes) (rest : List UInt8) :
    decodeFrom order position (bytes ++ rest) =
      (decodeFrom order (position + bytes.length) rest).map (c :: ·) := by
  cases h with
  | @one a b hlow hhigh =>
    rw [decodeFrom.eq_def]
    simp [hlow, hhigh]
  | @pair a b c d hhigh hlow =>
    have hlow' : ¬ isLow (order.unit a b) := by
      rw [isHigh_iff] at hhigh
      rw [isLow_iff]
      omega
    rw [decodeFrom.eq_def]
    simp [hlow, hhigh, hlow']

/-- What the decoder does not refuse begins with the bytes it takes for some character. -/
theorem begins_or_fails (order : Order) (position : ℕ) {bytes : List UInt8} (h : bytes ≠ []) :
    (∃ c first rest, CharBytes order c first ∧ bytes = first ++ rest) ∨
      ∃ m, decodeFrom order position bytes = .error m := by
  fun_cases decodeFrom order position bytes
  case case1 => exact absurd rfl h
  case case6 a b _ hlow hhigh c d rest _ hlow' =>
    exact .inl ⟨_, [a, b, c, d], rest, .pair hhigh hlow', rfl⟩
  case case8 a b rest _ hlow hhigh => exact .inl ⟨_, [a, b], rest, .one hlow hhigh, rfl⟩
  all_goals exact .inr ⟨_, rfl⟩

theorem inverts (order : Order) : Inverts (CharBytes order) (decodeFrom order) where
  ne_nil h := by cases h <;> exact List.cons_ne_nil _ _
  nil _ := by rw [decodeFrom]
  append := decodeFrom_append order
  begins := begins_or_fails order

theorem decodeFrom_eq_ok_iff {order : Order} {position : ℕ} {bytes : List UInt8}
    {t : List Char} : decodeFrom order position bytes = .ok t ↔ bytes = encode order t := by
  rw [encode, List.flatMap_assoc]
  exact (inverts order).eq_ok_iff (charBytes_iff order)

end Utf16

end LispCore

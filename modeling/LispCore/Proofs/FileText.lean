/-
  LispCore — the text of a file.

  * `Encoding.encode?`: the bytes of a text in an encoding, if it can be written in it;
  * `Encoding.decode_of_encode?`: decoding undoes encoding;
  * `Encoding.decode_eq_ok_iff`: in the encodings without a mark it accepts no other bytes;
  * `Environment.Selects`: the setting names the encoding, in whatever spelling and with blanks
    at its ends, or says nothing and the encoding is UTF-8;
  * `World.slurp_eq_iff_encode`: `slurp` answers the text that the contents of a file are the
    encoding of.
-/
import LispCore.Proofs.Call
import LispCore.Proofs.Codec
import Mathlib

namespace LispCore

/-! ## Single bytes -/

/-- The bytes of a text of which every character is a single byte below a bound. -/
def singleBytes? (bound : ℕ) (text : List Char) : Option (List UInt8) :=
  if text.all (·.toNat < bound) then some (text.map fun c => UInt8.ofNat c.toNat) else none

theorem toNat_byteChar (b : UInt8) : (byteChar b).toNat = b.toNat :=
  toNat_charOfNat (.inl (Nat.lt_trans b.toNat_lt (by decide)))

theorem byteChar_ofNat {c : Char} (h : c.toNat < 256) : byteChar (UInt8.ofNat c.toNat) = c := by
  rw [← Char.toNat_inj, toNat_byteChar, UInt8.toNat_ofNat', Nat.mod_eq_of_lt h]

theorem singleBytes?_eq_some_iff {bound : ℕ} (hbound : bound ≤ 256) {t : List Char}
    {bytes : List UInt8} : singleBytes? bound t = some bytes ↔
      (∀ b ∈ bytes, b.toNat < bound) ∧ t = bytes.map byteChar := by
  rw [singleBytes?, Option.ite_none_right_eq_some, List.all_eq_true]
  simp only [decide_eq_true_eq]
  constructor
  · rintro ⟨h, ⟨⟩⟩
    have hchar (c : Char) (hc : c ∈ t) : c.toNat < 256 := Nat.lt_of_lt_of_le (h c hc) hbound
    constructor
    · simp only [List.forall_mem_map]
      intro c hc
      rw [UInt8.toNat_ofNat', Nat.mod_eq_of_lt (hchar c hc)]
      exact h c hc
    · rw [List.map_map]
      exact ((List.map_congr_left fun c hc => byteChar_ofNat (hchar c hc)).trans t.map_id).symm
  · rintro ⟨h, rfl⟩
    constructor
    · simp only [List.forall_mem_map, toNat_byteChar]
      exact h
    · simp [Function.comp_def, toNat_byteChar]

theorem Ascii.decodeFrom_eq_ok_iff {position : ℕ} {bytes : List UInt8} {t : List Char} :
    decodeFrom position bytes = .ok t ↔
      (∀ b ∈ bytes, b.toNat < 0x80) ∧ t = bytes.map byteChar := by
  induction bytes generalizing position t with
  | nil => simp [decodeFrom, eq_comm]
  | cons b rest ih =>
    rw [decodeFrom, List.forall_mem_cons, List.map_cons]
    by_cases hb : b < 0x80
    · rw [if_pos hb, map_eq_ok_iff]
      have hb' : b.toNat < 0x80 := UInt8.lt_iff_toNat_lt.1 hb
      simp only [ih, hb', true_and, and_assoc, exists_and_left, exists_eq_left, eq_comm]
    · rw [if_neg hb]
      exact iff_of_false nofun fun h => hb (UInt8.lt_iff_toNat_lt.2 h.1.1)

/-! ## Encodings -/

namespace Encoding

/-- The bytes of a text in an encoding, if all its characters can be written in it.  The
    encodings with a mark put it first. -/
def encode? (encoding : Encoding) (text : List Char) : Option (List UInt8) :=
  match encoding with
  | utf8 => some (Utf8.encode text)
  | utf8Signed => some (Utf8.signature ++ Utf8.encode text)
  | ascii => singleBytes? 0x80 text
  | latin1 => singleBytes? 0x100 text
  | utf16 => some (0xFF :: 0xFE :: Utf16.encode .little text)
  | utf16Little => some (Utf16.encode .little text)
  | utf16Big => some (Utf16.encode .big text)

/-- **Decoding is the strict inverse of encoding**, in the encodings without a mark. -/
theorem decode_eq_ok_iff {encoding : Encoding}
    (hmark : encoding ∈ [utf8, ascii, latin1, utf16Little, utf16Big]) {bytes : List UInt8}
    {t : List Char} : encoding.decode bytes = .ok t ↔ encoding.encode? t = some bytes := by
  cases encoding with
  | utf8Signed | utf16 => exact absurd hmark (by decide)
  | utf8 =>
    rw [decode, mapError_eq_ok_iff, Utf8.decode, Utf8.decodeFrom_eq_ok_iff, encode?,
      Option.some_inj, eq_comm]
  | ascii =>
    rw [decode, mapError_eq_ok_iff, encode?, singleBytes?_eq_some_iff (by decide)]
    exact Ascii.decodeFrom_eq_ok_iff
  | latin1 =>
    rw [decode, encode?, singleBytes?_eq_some_iff (by decide), Except.ok.injEq, eq_comm]
    exact (and_iff_right fun b _ => b.toNat_lt).symm
  | utf16Little =>
    rw [decode, mapError_eq_ok_iff, Utf16.decode, Utf16.decodeFrom_eq_ok_iff, encode?,
      Option.some_inj, eq_comm]
  | utf16Big =>
    rw [decode, mapError_eq_ok_iff, Utf16.decode, Utf16.decodeFrom_eq_ok_iff, encode?,
      Option.some_inj, eq_comm]

/-- Decoding undoes encoding in the others as well; but there a text may have other bytes. -/
theorem decode_of_encode? {encoding : Encoding} {bytes : List UInt8} {t : List Char}
    (h : encoding.encode? t = some bytes) : encoding.decode bytes = .ok t := by
  cases encoding with
  | utf8 | ascii | latin1 | utf16Little | utf16Big => exact (decode_eq_ok_iff (by decide)).2 h
  | utf8Signed =>
    cases h
    rw [decode, mapError_eq_ok_iff]
    exact Utf8.decodeFrom_eq_ok_iff.2 rfl
  | utf16 =>
    cases h
    rw [decode, Utf16.decodeMarked, mapError_eq_ok_iff]
    exact Utf16.decodeFrom_eq_ok_iff.2 rfl

end Encoding

/-! ## Spellings of their names -/

/-- No blank stands in a name for itself: they are before the point or after the letters. -/
theorem isNameChar_eq_false_of_isBlank {c : Char} (h : Text.isBlank c) :
    isNameChar c = false := by
  have hblank : c.toNat ≤ 0x20 ∨ 0x85 ≤ c.toNat := by
    simp only [Text.isBlank, Bool.or_eq_true, Bool.and_eq_true, decide_eq_true_eq,
      beq_iff_eq] at h
    omega
  rw [← Bool.not_eq_true]
  intro hname
  simp only [isNameChar, Char.isAlphanum, Char.isAlpha, Char.isUpper, Char.isLower, Char.isDigit,
    Bool.or_eq_true, Bool.and_eq_true, decide_eq_true_eq, beq_iff_eq, ge_iff_le,
    UInt32.le_iff_toNat_le, ← Char.toNat_inj, Char.reduceToNat,
    Char.toNat_val] at hname
  omega

theorem normalizeFrom_blanks {blanks : List Char} (h : ∀ c ∈ blanks, Text.isBlank c)
    (started gap : Bool) : normalizeFrom started gap blanks = [] := by
  induction blanks generalizing gap with
  | nil => rfl
  | cons c rest ih =>
    rw [List.forall_mem_cons] at h
    rw [normalizeFrom, isNameChar_eq_false_of_isBlank h.1]
    exact ih h.2 true

/-- Blanks at the end are no part of a name. -/
theorem normalizeFrom_append_blanks {blanks : List Char} (h : ∀ c ∈ blanks, Text.isBlank c)
    (started gap : Bool) (s : List Char) :
    normalizeFrom started gap (s ++ blanks) = normalizeFrom started gap s := by
  induction s generalizing started gap with
  | nil => exact normalizeFrom_blanks h started gap
  | cons c s ih => rw [List.cons_append, normalizeFrom, normalizeFrom, ih, ih]

/-- What was dropped before a name began makes no difference. -/
theorem normalizeFrom_not_started (gap gap' : Bool) (s : List Char) :
    normalizeFrom false gap s = normalizeFrom false gap' s := by
  cases s <;> rfl

/-- Blanks before it are no part of it. -/
theorem normalizeFrom_blanks_append {blanks : List Char} (h : ∀ c ∈ blanks, Text.isBlank c)
    (gap : Bool) (s : List Char) :
    normalizeFrom false gap (blanks ++ s) = normalizeFrom false gap s := by
  induction blanks generalizing gap with
  | nil => rfl
  | cons c rest ih =>
    rw [List.forall_mem_cons] at h
    rw [List.cons_append, normalizeFrom, isNameChar_eq_false_of_isBlank h.1]
    exact (ih h.2 true).trans (normalizeFrom_not_started true gap s)

theorem normalizeName_append {before after : String} (name : String)
    (hbefore : ∀ c ∈ before.toList, Text.isBlank c) (hafter : ∀ c ∈ after.toList, Text.isBlank c) :
    normalizeName (before ++ name ++ after) = normalizeName name := by
  rw [normalizeName, String.toList_append, normalizeFrom_append_blanks hafter,
    String.toList_append, normalizeFrom_blanks_append hbefore]
  rfl

/-! ## The encoding of a setting -/

/-- The setting of the encoding says which one it is: by a name of it with any blanks at the
    ends; or it says nothing, which stands for UTF-8. -/
inductive Environment.Selects (env : Environment) : Encoding → Prop
  | named {before name after : String} {encoding : Encoding} :
      env.slurpEncoding = some (before ++ name ++ after) →
      (∀ c ∈ before.toList, Text.isBlank c) → (∀ c ∈ after.toList, Text.isBlank c) →
      Encoding.ofName name = .ok encoding → Selects env encoding
  | nothing : (∀ c ∈ (env.slurpEncoding.getD "").toList, Text.isBlank c) → Selects env .utf8

theorem Encoding.ofName_eq_ok_iff {name : String} {encoding : Encoding} :
    ofName name = .ok encoding ↔ Codec.ofName? name = some (.text encoding) := by
  rw [ofName]
  split <;> simp_all

theorem Codec.ofName?_append {before after : String} (name : String)
    (hbefore : ∀ c ∈ before.toList, Text.isBlank c) (hafter : ∀ c ∈ after.toList, Text.isBlank c) :
    ofName? (before ++ name ++ after) = ofName? name := by
  rw [ofName?, ofName?, normalizeName_append name hbefore hafter]

theorem Codec.ofName?_empty : ofName? "" = none := by decide

theorem Codec.ofName?_strip (raw : String) :
    ofName? (String.ofList (Text.strip raw.toList)) = ofName? raw := by
  obtain ⟨before, after, hraw, hbefore, hafter⟩ := Text.exists_strip raw
  exact (ofName?_append _ hbefore hafter).symm.trans (congrArg ofName? hraw.symm)

/-- **The encoding in force is the one that the setting says.** -/
theorem Environment.selects_iff {env : Environment} {encoding : Encoding} :
    env.Selects encoding ↔ Encoding.ofName env.encodingName = .ok encoding := by
  have hdefault : Encoding.ofName "utf-8" = .ok .utf8 := by decide
  constructor
  · intro h
    cases h with
    | @named before name after _ hset hbefore hafter hname =>
      rw [Encoding.ofName_eq_ok_iff] at hname ⊢
      have hstrip : Codec.ofName? (String.ofList (Text.strip (before ++ name ++ after).toList)) =
          some (.text encoding) := by
        rw [Codec.ofName?_strip, Codec.ofName?_append name hbefore hafter, hname]
      rw [encodingName, hset, Option.getD_some, if_neg, hstrip]
      -- The empty text names nothing, so something is left of a name.
      intro hnil
      rw [hnil] at hstrip
      cases Codec.ofName?_empty.symm.trans hstrip
    | nothing hblank =>
      rw [encodingName, Text.strip_eq_nil_iff.2 hblank]
      exact hdefault
  · intro h
    rw [encodingName] at h
    split_ifs at h with hstrip
    · cases hdefault.symm.trans h
      exact .nothing (Text.strip_eq_nil_iff.1 hstrip)
    · cases hset : env.slurpEncoding with
      | none =>
        rw [hset] at hstrip
        exact absurd rfl hstrip
      | some raw =>
        rw [hset, Option.getD_some] at h
        obtain ⟨before, after, hraw, hbefore, hafter⟩ := Text.exists_strip raw
        exact .named (hset.trans (congrArg some hraw)) hbefore hafter h

/-! ## Reading a file -/

namespace World

theorem callByName_slurp (world : World) (path : String) :
    world.callByName "slurp" [.string path] =
      match world.fileText path with
      | .error fault => .failed (.unreadableFile path fault)
      | .ok text => ⟨.ok (.string text), "", [.fileRead text.length path]⟩ :=
  world.callByName_one (p := .slurp) rfl (.string path)

theorem fileText_eq {world : World} {path : String} {bytes : List UInt8} {encoding : Encoding}
    (hread : world.files.read path = .ok bytes) (hselects : world.environment.Selects encoding) :
    world.fileText path = (encoding.decode bytes).map String.ofList := by
  rw [fileText, hread, Environment.selects_iff.1 hselects]
  change (encoding.decode bytes).bind (fun t => .ok (String.ofList t)) = _
  cases encoding.decode bytes <;> rfl

/-- The text of a file is the one that its contents are the encoding of. -/
theorem fileText_eq_ok_iff {world : World} {path : String} {bytes : List UInt8}
    {encoding : Encoding} (hread : world.files.read path = .ok bytes)
    (hselects : world.environment.Selects encoding)
    (hmark : encoding ∈ [Encoding.utf8, .ascii, .latin1, .utf16Little, .utf16Big]) {t : String} :
    world.fileText path = .ok t ↔ encoding.encode? t.toList = some bytes := by
  rw [fileText_eq hread hselects, map_eq_ok_iff, ← Encoding.decode_eq_ok_iff hmark]
  constructor
  · rintro ⟨text, htext, rfl⟩
    rwa [String.toList_ofList]
  · exact fun ht => ⟨t.toList, ht, String.ofList_toList⟩

/-- **`slurp` is the strict inverse of encoding.**  Of a file with the given contents, under a
    setting that says an encoding without a mark, it answers just the text that the contents
    are the encoding of, line endings and all.  If there is none, it fails and logs nothing;
    otherwise it logs how many characters the text has, and nothing else. -/
theorem slurp_eq_iff_encode {world : World} {path : String} {bytes : List UInt8}
    {encoding : Encoding} (hread : world.files.read path = .ok bytes)
    (hselects : world.environment.Selects encoding)
    (hmark : encoding ∈ [Encoding.utf8, .ascii, .latin1, .utf16Little, .utf16Big]) :
    let outcome := world.callByName "slurp" [.string path]
    (∀ t : String, outcome.result = .ok (.string t) ↔ encoding.encode? t.toList = some bytes) ∧
    ((∀ t : String, encoding.encode? t.toList ≠ some bytes) →
      (∃ e, outcome.result = .error e ∧ e.kind = .io) ∧ outcome.log = []) ∧
    ∀ v, outcome.result = .ok v →
      ∃ t : String, v = .string t ∧ outcome.log = [.fileRead t.length path] := by
  have hcall := world.callByName_slurp path
  have hiff (t : String) := fileText_eq_ok_iff hread hselects hmark (t := t)
  cases htext : world.fileText path with
  | error fault =>
    rw [htext] at hcall hiff
    simp only [hcall]
    refine ⟨fun t => iff_of_false nofun fun ht => ?_, fun _ => ⟨⟨_, rfl, rfl⟩, rfl⟩, nofun⟩
    cases (hiff t).2 ht
  | ok text =>
    rw [htext] at hcall hiff
    simp only [hcall]
    refine ⟨fun t => ?_, fun hnone => absurd ((hiff text).1 rfl) (hnone text), ?_⟩
    · rw [← hiff t, Except.ok.injEq, Except.ok.injEq, Value.string.injEq]
    · rintro _ ⟨⟩
      exact ⟨text, rfl, rfl⟩

/-- A byte order mark and a line ending in UTF-16, under a spelling of it between blanks. -/
theorem slurp_eq_iff_encode_marked :
    let world := initial { slurpEncoding := some "\tUTF-16LE \n" }
      (FileStore.empty.write "f" [0xFF, 0xFE, 0x61, 0x00, 0x0D, 0x00, 0x0A, 0x00]) .absent
    world.files.read "f" = .ok [0xFF, 0xFE, 0x61, 0x00, 0x0D, 0x00, 0x0A, 0x00] ∧
    world.environment.Selects .utf16Little ∧
    (world.callByName "slurp" [.string "f"]).result = .ok (.string "\uFEFFa\r\n") := by
  intro world
  have hread : world.files.read "f" = .ok [0xFF, 0xFE, 0x61, 0x00, 0x0D, 0x00, 0x0A, 0x00] := by
    decide
  have hset : world.environment.slurpEncoding = some ("\t" ++ "UTF-16LE" ++ " \n") := by decide
  have hselects : world.environment.Selects .utf16Little :=
    .named hset (by simp [Text.isBlank]) (by simp [Text.isBlank]) (by decide)
  refine ⟨hread, hselects, ((slurp_eq_iff_encode hread hselects (by decide)).1 _).2 ?_⟩
  decide

end World

end LispCore

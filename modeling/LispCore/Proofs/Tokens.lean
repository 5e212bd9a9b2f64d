/-
  LispCore — texts that are cut out as one token.

  * `Token.next?_atom`: a run of atom characters, up to where the text ends or another
    character follows;
  * `Token.next?_text`: a string literal, whatever the string and whatever follows;
  * `Token.next?_openList`, `Token.next?_closeList`, `Token.next?_space`: parentheses are
    tokens and spaces are dropped;
  * `Spells`: what stands between the quotes of a string literal, and the string that it
    stands for; `literalBody?_of_spells`, `spells_of_literalBody?`: that is what is read;
  * `Lexeme`, `Token.next?_eq_some_iff`: the first token is the one that the text begins
    with, after blanks; `Token.next?_eq_none`: otherwise there are only blanks, or a double
    quote that opens no string.
-/
import Mathlib.Data.List.TakeWhile
import LispCore.Reader.Token

namespace LispCore

/-- What follows does not go on with an atom. -/
def Ends (rest : List Char) : Prop := ∀ c ∈ rest.head?, ¬ isAtomChar c

theorem ends_nil : Ends [] := by simp [Ends]

theorem ends_space (s : List Char) : Ends (' ' :: s) := by simp [Ends]; decide

theorem ends_close (s : List Char) : Ends (')' :: s) := by simp [Ends]; decide

theorem isAtomChar_iff {c : Char} :
    isAtomChar c ↔ ¬ Text.isBlank c ∧ c ≠ '(' ∧ c ≠ ')' ∧ c ≠ '"' := by
  simp [isAtomChar, and_assoc]

/-! ## String literals -/

theorem literalBody?_escapeChar (c : Char) (s : List Char) :
    literalBody? (Text.escapeChar c ++ s) =
      (literalBody? s).map fun found => (c :: found.1, found.2) := by
  unfold Text.escapeChar
  split
  · next h => subst h; simp [literalBody?, Text.unescapeChar]
  split
  · next h => subst h; simp [literalBody?, Text.unescapeChar]
  split
  · next h => subst h; simp [literalBody?, Text.unescapeChar]
  · next h₁ h₂ h₃ =>
    rw [List.singleton_append, literalBody?.eq_def]
    simp [h₁, h₂]

/-- Escaping is undone, on every text. -/
theorem literalBody?_escape (s rest : List Char) :
    literalBody? (s.flatMap Text.escapeChar ++ '"' :: rest) = some (s, rest) := by
  induction s with
  | nil =>
    rw [List.flatMap_nil, List.nil_append, literalBody?.eq_def]
    simp
  | cons c s ih =>
    rw [List.flatMap_cons, List.append_assoc, literalBody?_escapeChar, ih]
    rfl

namespace Token

theorem next?_of_not_blank {c : Char} (h : ¬ Text.isBlank c) (s : List Char) :
    next? (c :: s) = first? (c :: s) := by
  rw [next?, List.dropWhile_cons_of_neg h]

theorem next?_space (s : List Char) : next? (' ' :: s) = next? s := by
  rw [next?, next?, List.dropWhile_cons_of_pos (by decide)]

theorem next?_openList (s : List Char) : next? ('(' :: s) = some (.openList, s) := by
  rw [next?_of_not_blank (by decide)]
  simp [first?]

theorem next?_closeList (s : List Char) : next? (')' :: s) = some (.closeList, s) := by
  rw [next?_of_not_blank (by decide)]
  simp [first?]

/-- **A string literal is one token.** -/
theorem next?_text (s rest : List Char) :
    next? (Text.escape s ++ rest) = some (.text s, rest) := by
  have happend : Text.escape s ++ rest = '"' :: (s.flatMap Text.escapeChar ++ '"' :: rest) := by
    simp [Text.escape]
  rw [happend, next?_of_not_blank (by decide)]
  simp [first?, literalBody?_escape]

/-- **A longest run of atom characters is one token.** -/
theorem next?_atom {s rest : List Char} (hne : s ≠ []) (hs : ∀ c ∈ s, isAtomChar c)
    (hrest : Ends rest) : next? (s ++ rest) = some (.atom s, rest) := by
  cases s with
  | nil => exact absurd rfl hne
  | cons c s =>
    obtain ⟨hblank, hopen, hclose, hquote⟩ := isAtomChar_iff.1 (hs c List.mem_cons_self)
    have hs' : ∀ c ∈ s, isAtomChar c := fun d hd => hs d (List.mem_cons_of_mem c hd)
    have htake : (s ++ rest).takeWhile isAtomChar = s := by
      rw [List.takeWhile_append_of_pos hs']
      cases rest with
      | nil => simp
      | cons d rest => simp [hrest d rfl]
    have hdrop : (s ++ rest).dropWhile isAtomChar = rest := by
      rw [List.dropWhile_append_of_pos hs']
      cases rest with
      | nil => simp
      | cons d rest => simp [hrest d rfl]
    rw [List.cons_append, next?_of_not_blank hblank]
    simp [first?, hopen, hclose, hquote, htake, hdrop]

end Token

/-! ## Tokens by themselves -/

/-- The text begins with blanks, after which `rest` comes. -/
def AfterBlanks (s rest : List Char) : Prop :=
  ∃ blanks, s = blanks ++ rest ∧ ∀ c ∈ blanks, Text.isBlank c

theorem afterBlanks_dropWhile (s : List Char) : AfterBlanks s (s.dropWhile Text.isBlank) :=
  ⟨s.takeWhile Text.isBlank, List.takeWhile_append_dropWhile.symm,
    fun _ hc => List.mem_takeWhile_imp hc⟩

theorem AfterBlanks.dropWhile {s rest : List Char} (h : AfterBlanks s rest) :
    s.dropWhile Text.isBlank = rest.dropWhile Text.isBlank := by
  obtain ⟨blanks, rfl, hblank⟩ := h
  exact List.dropWhile_append_of_pos hblank

theorem AfterBlanks.next? {s rest : List Char} (h : AfterBlanks s rest) :
    Token.next? s = Token.next? rest := by
  rw [Token.next?, Token.next?, h.dropWhile]

/-- What stands between the quotes of a string literal, and the string it stands for. -/
inductive Spells : List Char → List Char → Prop
  /-- Nothing at all. -/
  | nil : Spells [] []
  /-- Any character but a double quote and a backslash stands for itself. -/
  | plain {c s t} : c ≠ '"' → c ≠ '\\' → Spells s t → Spells (c :: s) (c :: t)
  /-- An `n` after a backslash stands for a newline. -/
  | newline {s t} : Spells s t → Spells ('\\' :: 'n' :: s) ('\n' :: t)
  /-- Any other character after a backslash, but a newline, stands for itself. -/
  | escaped {c s t} : c ≠ 'n' → c ≠ '\n' → Spells s t → Spells ('\\' :: c :: s) (c :: t)

theorem literalBody?_of_spells {s t : List Char} (h : Spells s t) (rest : List Char) :
    literalBody? (s ++ '"' :: rest) = some (t, rest) := by
  induction h with
  | nil =>
    rw [List.nil_append, literalBody?.eq_def]
    simp
  | plain hquote hback _ ih =>
    rw [List.cons_append, literalBody?.eq_def]
    simp [hquote, hback, ih]
  | newline _ ih =>
    rw [List.cons_append, List.cons_append, literalBody?.eq_def]
    simp [ih, Text.unescapeChar]
  | escaped hn hnewline _ ih =>
    rw [List.cons_append, List.cons_append, literalBody?.eq_def]
    simp [ih, Text.unescapeChar, hn, hnewline]

theorem spells_of_literalBody? {s t rest : List Char} (h : literalBody? s = some (t, rest)) :
    ∃ body, s = body ++ '"' :: rest ∧ Spells body t := by
  fun_induction literalBody? s generalizing t rest with
  | case1 => cases h
  | case2 s => cases h; exact ⟨[], rfl, .nil⟩
  | case3 => cases h
  | case4 => cases h
  | case5 d s hd _ ih =>
    obtain ⟨found, hf, he⟩ := Option.map_eq_some_iff.1 h
    obtain ⟨body, rfl, hbody⟩ := ih hf
    cases he
    by_cases hn : d = 'n'
    · subst hn
      exact ⟨'\\' :: 'n' :: body, rfl, .newline hbody⟩
    · rw [Text.unescapeChar, if_neg hn]
      exact ⟨'\\' :: d :: body, rfl, .escaped hn hd hbody⟩
  | case6 c s hquote hback ih =>
    obtain ⟨found, hf, he⟩ := Option.map_eq_some_iff.1 h
    obtain ⟨body, rfl, hbody⟩ := ih hf
    cases he
    exact ⟨c :: body, rfl, .plain hquote hback hbody⟩

/-- The text begins with the token, after which `rest` comes. -/
inductive Lexeme : List Char → Token → List Char → Prop
  | openList {rest} : Lexeme ('(' :: rest) .openList rest
  | closeList {rest} : Lexeme (')' :: rest) .closeList rest
  | text {s t rest} : Spells s t → Lexeme ('"' :: (s ++ '"' :: rest)) (.text t) rest
  | atom {s rest} : s ≠ [] → (∀ c ∈ s, isAtomChar c) → Ends rest →
      Lexeme (s ++ rest) (.atom s) rest

namespace Token

theorem next?_of_lexeme {s rest : List Char} {t : Token} (h : Lexeme s t rest) :
    next? s = some (t, rest) := by
  cases h with
  | openList => exact next?_openList rest
  | closeList => exact next?_closeList rest
  | text h =>
    rw [next?_of_not_blank (by decide)]
    simp [first?, literalBody?_of_spells h]
  | atom hne hs hrest => exact next?_atom hne hs hrest

theorem ends_dropWhile (s : List Char) : Ends (s.dropWhile isAtomChar) := by
  intro c hc
  have := List.head?_dropWhile_not isAtomChar s
  rw [hc] at this
  simpa using this

theorem lexeme_of_first? {s rest : List Char} {t : Token} (hs : ∀ c ∈ s.head?, ¬ Text.isBlank c)
    (h : first? s = some (t, rest)) : Lexeme s t rest := by
  cases s with
  | nil => cases h
  | cons c s =>
    rw [first?] at h
    split at h
    · next hc => cases h; rw [hc]; exact .openList
    split at h
    · next hc => cases h; rw [hc]; exact .closeList
    split at h
    · next hc =>
      obtain ⟨found, hf, he⟩ := Option.map_eq_some_iff.1 h
      obtain ⟨body, rfl, hbody⟩ := spells_of_literalBody? hf
      cases he
      rw [hc]
      exact .text hbody
    · next hopen hclose hquote =>
      cases h
      have hatom : isAtomChar c := isAtomChar_iff.2 ⟨hs c rfl, hopen, hclose, hquote⟩
      have hsplit : c :: s = (c :: s.takeWhile isAtomChar) ++ s.dropWhile isAtomChar := by
        rw [List.cons_append, List.takeWhile_append_dropWhile]
      rw [hsplit]
      refine .atom (List.cons_ne_nil c _) ?_ (ends_dropWhile s)
      intro d hd
      rcases List.mem_cons.1 hd with rfl | hd
      · exact hatom
      · exact List.mem_takeWhile_imp hd

/-- **The first token is the one that the text begins with**, after blanks. -/
theorem next?_eq_some_iff {s rest : List Char} {t : Token} :
    next? s = some (t, rest) ↔ ∃ s', AfterBlanks s s' ∧ Lexeme s' t rest := by
  constructor
  · intro h
    refine ⟨_, afterBlanks_dropWhile s, lexeme_of_first? (fun c hc => ?_) h⟩
    have := List.head?_dropWhile_not Text.isBlank s
    rw [hc] at this
    simpa using this
  · rintro ⟨s', hs, h⟩
    rw [hs.next?]
    exact next?_of_lexeme h

/-- A text without a first token holds nothing but blanks, or a double quote comes after
    them that opens no string. -/
theorem next?_eq_none {s : List Char} (h : next? s = none) :
    (∀ c ∈ s, Text.isBlank c) ∨ ∃ r, AfterBlanks s ('"' :: r) ∧ literalBody? r = none := by
  have hs := afterBlanks_dropWhile s
  rw [next?] at h
  cases hdrop : s.dropWhile Text.isBlank with
  | nil => exact Or.inl (List.dropWhile_eq_nil_iff.1 hdrop)
  | cons c r =>
    rw [hdrop] at h hs
    rw [first?] at h
    split at h
    · cases h
    split at h
    · cases h
    split at h
    · next hc =>
      rw [hc] at hs
      exact Or.inr ⟨r, hs, Option.map_eq_none_iff.1 h⟩
    · cases h

end Token

end LispCore

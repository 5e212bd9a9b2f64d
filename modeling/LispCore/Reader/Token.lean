/-
  LispCore — tokens.

  Blanks separate tokens.  A parenthesis is a token, a string literal is one, and
  so is every longest run of other characters.

  * `Token`: the four sorts of tokens;
  * `literalBody?`: the rest of a string literal and what comes after it;
  * `Token.next?`: the first token of a text and what comes after it;
  * `Token.length_of_next?`: what comes after it is shorter, so that reading ends.
-/
import LispCore.Text.Blank
import LispCore.Text.Escape

namespace LispCore

/-- A token. -/
inductive Token where
  /-- An opening parenthesis. -/
  | openList
  /-- A closing parenthesis. -/
  | closeList
  /-- A string literal, by the text it stands for. -/
  | text (s : List Char)
  /-- A run of characters, by itself. -/
  | atom (s : List Char)
  deriving DecidableEq, Repr

/-- Whether a character can be part of an atom. -/
def isAtomChar (c : Char) : Bool :=
  !Text.isBlank c && c != '(' && c != ')' && c != '"'

/-- What a string literal stands for, given what follows its opening quote, and what
    comes after its closing quote.  A backslash takes any character but a newline
    with it; a literal without a closing quote is none. -/
def literalBody? : List Char → Option (List Char × List Char)
  | [] => none
  | c :: rest =>
    if c = '"' then some ([], rest)
    else if c = '\\' then
      match rest with
      | [] => none
      | d :: rest =>
        if d = '\n' then none
        else (literalBody? rest).map fun found => (Text.unescapeChar d :: found.1, found.2)
    else (literalBody? rest).map fun found => (c :: found.1, found.2)

/-- The first token of a text that begins with no blank. -/
def Token.first? : List Char → Option (Token × List Char)
  | [] => none
  | c :: rest =>
    if c = '(' then some (.openList, rest)
    else if c = ')' then some (.closeList, rest)
    else if c = '"' then (literalBody? rest).map fun found => (.text found.1, found.2)
    else some (.atom (c :: rest.takeWhile isAtomChar), rest.dropWhile isAtomChar)

/-- The first token of a text and what comes after it. -/
def Token.next? (s : List Char) : Option (Token × List Char) :=
  first? (s.dropWhile Text.isBlank)

/-- What comes after a string literal is shorter than what follows its opening
    quote. -/
theorem length_of_literalBody? {s text rest : List Char}
    (h : literalBody? s = some (text, rest)) : rest.length < s.length := by
  fun_induction literalBody? s generalizing text rest with
  | case1 => simp at h
  | case2 s => simp at h; simp [h.2]
  | case3 => simp at h
  | case4 => simp at h
  | case5 d s hd _ ih =>
    obtain ⟨found, hf, he⟩ := Option.map_eq_some_iff.1 h
    have := ih hf
    simp only [Prod.mk.injEq] at he
    simp only [← he.2, List.length_cons]
    omega
  | case6 c s hc hd ih =>
    obtain ⟨found, hf, he⟩ := Option.map_eq_some_iff.1 h
    have := ih hf
    simp only [Prod.mk.injEq] at he
    simp only [← he.2, List.length_cons]
    omega

theorem Token.length_of_next? {s rest : List Char} {t : Token}
    (h : Token.next? s = some (t, rest)) : rest.length < s.length := by
  refine Nat.lt_of_lt_of_le ?_ (List.dropWhile_sublist Text.isBlank).length_le
  unfold Token.next? at h
  generalize s.dropWhile Text.isBlank = s at h
  cases s with
  | nil => simp [Token.first?] at h
  | cons c s =>
    simp only [Token.first?] at h
    split at h
    · simp at h; simp [h.2]
    · split at h
      · simp at h; simp [h.2]
      · split at h
        · obtain ⟨found, hf, he⟩ := Option.map_eq_some_iff.1 h
          have := length_of_literalBody? hf
          simp only [Prod.mk.injEq] at he
          simp only [← he.2, List.length_cons]
          omega
        · have := (List.dropWhile_sublist (l := s) isAtomChar).length_le
          simp at h
          simp only [← h.2, List.length_cons]
          omega

end LispCore

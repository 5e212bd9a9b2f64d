/-
  LispCore — reading looks at the first value only.

  * `Lexeme.append`, `Token.next?_append`: what is put after a text does not change its first
    token, unless it goes on with an atom there;
  * `readOpen_append`: a longer text is read as the text itself, or reading comes to the end
    of the text inside of something that is not complete;
  * `readFirst_append_blanks`: blanks at the end make no difference at all;
  * `World.read_first_value`: what is read stays the same whatever comes after it;
  * `World.read_literal`: a string literal ends where it ends, whatever comes after it.
-/
import LispCore.Proofs.Acceptance

namespace LispCore

/-! ## The first token of a longer text -/

theorem ends_iff {t : List Char} :
    Ends t ↔ ∀ c ∈ t.head?, Text.isBlank c ∨ c = '(' ∨ c = ')' ∨ c = '"' := by
  refine forall₂_congr fun c _ => ?_
  rw [isAtomChar_iff]
  tauto

theorem ends_blanks {t : List Char} (h : ∀ c ∈ t, Text.isBlank c) : Ends t :=
  ends_iff.2 fun c hc => Or.inl (h c (List.mem_of_mem_head? hc))

theorem Ends.append {r t : List Char} (hr : Ends r) (ht : Ends t) : Ends (r ++ t) := by
  cases r with
  | nil => exact ht
  | cons c r => exact hr

theorem AfterBlanks.append {s r : List Char} (h : AfterBlanks s r) (t : List Char) :
    AfterBlanks (s ++ t) (r ++ t) := by
  obtain ⟨blanks, rfl, hblank⟩ := h
  exact ⟨blanks, List.append_assoc blanks r t, hblank⟩

theorem Lexeme.append {s r t : List Char} {token : Token} (h : Lexeme s token r) (ht : Ends t) :
    Lexeme (s ++ t) token (r ++ t) := by
  cases h with
  | openList => exact .openList
  | closeList => exact .closeList
  | @text body u _ h =>
    have happend : '"' :: (body ++ '"' :: r) ++ t = '"' :: (body ++ '"' :: (r ++ t)) := by simp
    rw [happend]
    exact .text h
  | @atom u _ hne hu hr =>
    rw [List.append_assoc]
    exact .atom hne hu (hr.append ht)

namespace Token

/-- **The first token of a text is that of any longer text**, unless it is an atom that goes
    on there. -/
theorem next?_append {s r t : List Char} {token : Token} (h : next? s = some (token, r))
    (ht : Ends t) : next? (s ++ t) = some (token, r ++ t) := by
  obtain ⟨s', hs, hlex⟩ := next?_eq_some_iff.1 h
  exact next?_eq_some_iff.2 ⟨s' ++ t, hs.append t, hlex.append ht⟩

/-- Blanks at the end do not complete a string. -/
theorem literalBody?_append_blanks {r t : List Char} (h : literalBody? r = none)
    (ht : ∀ c ∈ t, Text.isBlank c) : literalBody? (r ++ t) = none := by
  have hquote : '"' ∉ t := fun hmem => absurd (ht _ hmem) (by decide)
  cases hbody : literalBody? (r ++ t) with
  | none => rfl
  | some found =>
    obtain ⟨body, heq, hspells⟩ := spells_of_literalBody? hbody
    -- the closing quote is no blank, so that it stands in `r` already
    obtain ⟨u, -, hu⟩ | ⟨u, hr, hu⟩ := List.append_eq_append_iff.1 heq
    · exact absurd (hu ▸ List.mem_append_right u List.mem_cons_self) hquote
    · cases u with
      | nil =>
        rw [List.nil_append] at hu
        exact absurd (hu ▸ List.mem_cons_self) hquote
      | cons c u =>
        rw [List.cons_append, List.cons.injEq] at hu
        rw [hr, ← hu.1, literalBody?_of_spells hspells] at h
        cases h

/-- Nor do they make a token where there is none. -/
theorem next?_append_blanks {s t : List Char} (h : next? s = none)
    (ht : ∀ c ∈ t, Text.isBlank c) : next? (s ++ t) = none := by
  rcases next?_eq_none h with hblank | ⟨r, hr, hnone⟩
  · have hall : ∀ c ∈ s ++ t, Text.isBlank c := fun c hc =>
      (List.mem_append.1 hc).elim (hblank c) (ht c)
    rw [next?, List.dropWhile_eq_nil_iff.2 hall]
    rfl
  · rw [(hr.append t).next?, List.cons_append, next?_of_not_blank (by decide)]
    simp [first?, literalBody?_append_blanks hnone ht]

end Token

/-! ## Reading a longer text -/

theorem exists_fault_of_none {s : List Char} (h : Token.next? s = none)
    (stack : List (List Value)) : ∃ fault, readOpen stack s = .error fault := by
  cases stack with
  | nil => exact ⟨_, readOpen_nil_of_none h⟩
  | cons elements stack => exact ⟨_, readOpen_none h elements⟩

/-- **A longer text is read as the text itself**, or else reading comes to an end of the text
    where there is no token any more, and goes on from there. -/
theorem readOpen_append {t : List Char} (ht : Ends t) (stack : List (List Value))
    (s : List Char) : readOpen stack (s ++ t) = readOpen stack s ∨
      ∃ stack' s', Token.next? s' = none ∧ readOpen stack s = readOpen stack' s' ∧
        readOpen stack (s ++ t) = readOpen stack' (s' ++ t) := by
  cases hs : Token.next? s with
  | none => exact Or.inr ⟨stack, s, hs, rfl, rfl⟩
  | some found =>
    obtain ⟨token, r⟩ := found
    have hlt := Token.length_of_next? hs
    have hst := Token.next?_append hs ht
    -- after a value, either it is the answer or reading goes on inside of a list
    have hresume (v : Value) (stack : List (List Value)) :
        resume v (r ++ t) stack = resume v r stack ∨
          ∃ stack' s', Token.next? s' = none ∧ resume v r stack = readOpen stack' s' ∧
            resume v (r ++ t) stack = readOpen stack' (s' ++ t) := by
      cases stack with
      | nil => exact Or.inl rfl
      | cons elements stack => exact readOpen_append ht ((v :: elements) :: stack) r
    cases token with
    | openList =>
      rw [readOpen_openList hs, readOpen_openList hst]
      split
      · exact readOpen_append ht ([] :: stack) r
      · exact Or.inl rfl
    | closeList =>
      cases stack with
      | nil => exact Or.inl (by rw [readOpen_nil_of_closeList hs, readOpen_nil_of_closeList hst])
      | cons elements stack =>
        rw [readOpen_closeList hs, readOpen_closeList hst]
        exact hresume _ stack
    | text u =>
      rw [readOpen_text hs, readOpen_text hst]
      exact hresume _ stack
    | atom u =>
      rw [readOpen_atom hs, readOpen_atom hst]
      exact hresume _ stack
termination_by s.length

/-- What is read of a text is read of any longer text, unless an atom goes on there. -/
theorem readOpen_append_of_ok {stack : List (List Value)} {s t : List Char} {v : Value}
    (h : readOpen stack s = .ok v) (ht : Ends t) : readOpen stack (s ++ t) = .ok v := by
  rcases readOpen_append ht stack s with happend | ⟨stack', s', hnone, hs, -⟩
  · exact happend.trans h
  · obtain ⟨fault, hfault⟩ := exists_fault_of_none hnone stack'
    rw [hs, hfault] at h
    cases h

theorem noTokenFault_append_blanks {s t : List Char} (ht : ∀ c ∈ t, Text.isBlank c) :
    noTokenFault (s ++ t) = noTokenFault s := by
  cases hs : s.dropWhile Text.isBlank with
  | nil =>
    have hall : ∀ c ∈ s ++ t, Text.isBlank c := fun c hc =>
      (List.mem_append.1 hc).elim (List.dropWhile_eq_nil_iff.1 hs c) (ht c)
    rw [noTokenFault_of_blank hs, noTokenFault_of_blank (List.dropWhile_eq_nil_iff.2 hall)]
  | cons d r =>
    obtain ⟨c, s, rfl⟩ := List.exists_cons_of_ne_nil fun h : s = [] => by simp [h] at hs
    have hdrop : (c :: (s ++ t)).dropWhile Text.isBlank = d :: (r ++ t) := by
      rw [← List.cons_append, List.dropWhile_append, hs]
      rfl
    rw [noTokenFault_cons hs, List.cons_append, noTokenFault_cons hdrop]

/-- **Blanks at the end make no difference**: the text is read, or refused, as without
    them. -/
theorem readFirst_append_blanks (s : String) {blanks : String}
    (h : ∀ c ∈ blanks.toList, Text.isBlank c) : readFirst (s ++ blanks) = readFirst s := by
  rw [readFirst, readFirst, String.toList_append]
  rcases readOpen_append (ends_blanks h) [] s.toList with happend | ⟨stack, s', hnone, hs, hst⟩
  · exact happend
  · rw [hs, hst]
    have hnone' := Token.next?_append_blanks hnone h
    cases stack with
    | nil =>
      rw [readOpen_nil_of_none hnone, readOpen_nil_of_none hnone', noTokenFault_append_blanks h]
    | cons elements stack => rw [readOpen_none hnone, readOpen_none hnone']

/-- What is read of a text is read of it after any blanks. -/
theorem readOpen_blanks_append {stack : List (List Value)} {s blanks : List Char} {v : Value}
    (h : readOpen stack s = .ok v) (hblank : ∀ c ∈ blanks, Text.isBlank c) :
    readOpen stack (blanks ++ s) = .ok v := by
  have hnext : Token.next? (blanks ++ s) = Token.next? s := AfterBlanks.next? ⟨blanks, rfl, hblank⟩
  rw [readOpen_congr hnext, h]
  intro hnone
  obtain ⟨fault, hfault⟩ := exists_fault_of_none hnone stack
  rw [hfault] at h
  cases h

namespace World

/-- **What is read depends on the first value only.**  A text that `read-string` reads is read
    as the same value whatever comes after it, unless that could go on with an atom, and after
    any blanks. -/
theorem read_first_value {world : World} (hreader : world.scope.reader = .grammar) {s : String}
    {v : Value} (hread : (world.callByName "read-string" [.string s]).result = .ok v) :
    (∀ t : String, (∀ c ∈ t.toList.head?, Text.isBlank c ∨ c = '(' ∨ c = ')' ∨ c = '"') →
      (world.callByName "read-string" [.string (s ++ t)]).result = .ok v) ∧
    ∀ blanks : String, (∀ c ∈ blanks.toList, Text.isBlank c) →
      (world.callByName "read-string" [.string (blanks ++ s)]).result = .ok v := by
  rw [result_readString_eq_ok hreader] at hread
  refine ⟨fun t ht => ?_, fun blanks hblank => ?_⟩
  · rw [result_readString_eq_ok hreader, String.toList_append]
    exact readOpen_append_of_ok hread (ends_iff.2 ht)
  · rw [result_readString_eq_ok hreader, String.toList_append]
    exact readOpen_blanks_append hread hblank

/-- Neither a parenthesis too many nor a double quote without another one is looked at. -/
theorem read_first_value_unbalanced :
    ((initial {} .empty .grammar).scope.reader = .grammar ∧
      ((initial {} .empty .grammar).callByName "read-string" [.string "(nil)"]).result =
        .ok (.list [.nil]) ∧
      (∀ c ∈ ")\"".toList.head?, Text.isBlank c ∨ c = '(' ∨ c = ')' ∨ c = '"') ∧
      ∀ c ∈ " \n".toList, Text.isBlank c) ∧
    ((initial {} .empty .grammar).callByName "read-string" [.string ("(nil)" ++ ")\"")]).result =
      .ok (.list [.nil]) ∧
    ((initial {} .empty .grammar).callByName "read-string" [.string (" \n" ++ "(nil)")]).result =
      .ok (.list [.nil]) := by
  have hread : ((initial {} .empty .grammar).callByName "read-string"
      [.string "(nil)"]).result = .ok (.list [.nil]) := by
    rw [result_readString_eq_ok rfl,
      readOpen_openList (r := "nil)".toList) (by decide +kernel), if_pos (by decide),
      readOpen_atom (t := "nil".toList) (r := [')']) (by decide +kernel), resume,
      readOpen_closeList (r := []) (by decide +kernel), resume, atomValue_nil]
    rfl
  have ht : ∀ c ∈ ")\"".toList.head?, Text.isBlank c ∨ c = '(' ∨ c = ')' ∨ c = '"' := by
    simp
  have hblank : ∀ c ∈ " \n".toList, Text.isBlank c := by
    simp only [String.reduceToList, List.forall_mem_cons, List.not_mem_nil, false_imp_iff,
      implies_true, and_true]
    decide
  exact ⟨⟨rfl, hread, ht, hblank⟩, (read_first_value rfl hread).1 _ ht,
    (read_first_value rfl hread).2 _ hblank⟩

end World

/-! ## String literals -/

theorem next?_escapeString (s t : String) :
    Token.next? (escapeString s ++ t).toList = some (.text s.toList, t.toList) := by
  rw [escapeString, String.toList_append, String.toList_ofList]
  exact Token.next?_text s.toList t.toList

/-- A string literal and what follows it are known from their text. -/
theorem escapeString_append_inj {s s' t t' : String}
    (h : escapeString s ++ t = escapeString s' ++ t') : s = s' ∧ t = t' := by
  have hnext := next?_escapeString s t
  rw [h, next?_escapeString] at hnext
  simp only [Option.some.injEq, Prod.mk.injEq, Token.text.injEq, String.toList_inj] at hnext
  exact ⟨hnext.1.symm, hnext.2.symm⟩

namespace World

/-- **A string literal ends where it ends**: `read-string` reads the string that it stands
    for, whatever comes after it.  So different strings have different literals, and none of
    them begins with another one. -/
theorem read_literal {world : World} (hreader : world.scope.reader = .grammar) :
    (∀ s t : String, world.callByName "read-string" [.string (escapeString s ++ t)] =
      ⟨.ok (.string s), "", [.delegating (escapeString s ++ t).length]⟩) ∧
    Function.Injective escapeString ∧
    ∀ s s' t : String, escapeString s ++ t = escapeString s' → s = s' ∧ t = "" := by
  refine ⟨fun s t => world.callByName_readString hreader ?_, fun s s' h => ?_, fun s s' t h => ?_⟩
  · rw [readFirst, readOpen_text (next?_escapeString s t), String.ofList_toList]
    rfl
  · exact (escapeString_append_inj (congrArg (· ++ "") h)).1
  · exact escapeString_append_inj (h.trans (String.append_empty (s := escapeString s')).symm)

/-- A string that ends with a backslash, and a double quote after its literal. -/
theorem read_literal_backslash : (initial {} .empty .grammar).scope.reader = .grammar ∧
    (initial {} .empty .grammar).callByName "read-string"
        [.string (escapeString "\"n\\" ++ "\")(")] =
      ⟨.ok (.string "\"n\\"), "", [.delegating (escapeString "\"n\\" ++ "\")(").length]⟩ :=
  ⟨rfl, (read_literal rfl).1 "\"n\\" "\")("⟩

end World

end LispCore

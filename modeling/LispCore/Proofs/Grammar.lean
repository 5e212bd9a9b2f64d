/-
  LispCore — the grammar of source texts.

    value ::= string | atom | '(' (blank* value)* blank* ')'

  * `AtomMeans`: what a run of atom characters means;
  * `Derives`, `DerivesAll`: a text begins with one that derives a value, or with the
    elements of a list and its closing parenthesis;
  * `Starts`: the first token of a text that derives a value;
  * `Derives.unique`: the grammar is unambiguous;
  * `Opens`: how many lists a text opens inside each other, complete or not;
    `Derives.nested_or_opens`: a value nests no deeper than its text opens lists.
-/
import LispCore.Proofs.Position
import LispCore.Proofs.Tokens
import LispCore.Reader.Grammar

namespace LispCore

/-! ## Atoms -/

/-- What an atom means: nil, a boolean, a number, or else the symbol of that name. -/
inductive AtomMeans : List Char → Value → Prop
  | nil : AtomMeans "nil".toList .nil
  | boolean (b : Bool) : AtomMeans (if b then "true" else "false").toList (.boolean b)
  | number {s x} : Double.ofLiteral? s = some x → AtomMeans s (.number x)
  | symbol {s} : s ≠ "nil".toList → s ≠ "true".toList → s ≠ "false".toList →
      Double.ofLiteral? s = none → AtomMeans s (.symbol (String.ofList s))

theorem atomValue_of_literal {s : List Char} {x : Double} (h : Double.ofLiteral? s = some x) :
    atomValue s = .number x := by
  have hnil : Double.ofLiteral? "nil".toList = none := by decide +kernel
  have htrue : Double.ofLiteral? "true".toList = none := by decide +kernel
  have hfalse : Double.ofLiteral? "false".toList = none := by decide +kernel
  rw [atomValue, if_neg, if_neg, if_neg, h]
  · rintro rfl
    rw [hfalse] at h
    cases h
  · rintro rfl
    rw [htrue] at h
    cases h
  · rintro rfl
    rw [hnil] at h
    cases h

theorem atomValue_nil : atomValue "nil".toList = .nil := if_pos rfl

theorem atomValue_boolean (b : Bool) : atomValue (if b then "true" else "false").toList =
    .boolean b := by
  cases b with
  | false =>
    show atomValue "false".toList = .boolean false
    rw [atomValue, if_neg (by decide +kernel), if_neg (by decide +kernel), if_pos rfl]
  | true =>
    show atomValue "true".toList = .boolean true
    rw [atomValue, if_neg (by decide +kernel), if_pos rfl]

theorem AtomMeans.atomValue_eq {s : List Char} {v : Value} (h : AtomMeans s v) :
    atomValue s = v := by
  cases h with
  | nil => exact atomValue_nil
  | boolean b => exact atomValue_boolean b
  | number h => exact atomValue_of_literal h
  | symbol hnil htrue hfalse h => rw [atomValue, if_neg hnil, if_neg htrue, if_neg hfalse, h]

theorem atomMeans_atomValue (s : List Char) : AtomMeans s (atomValue s) := by
  unfold atomValue
  split
  · next h => exact h ▸ .nil
  split
  · next h => exact h ▸ .boolean true
  split
  · next h => exact h ▸ .boolean false
  · next hnil htrue hfalse =>
    split
    · next h => exact .number h
    · next h => exact .symbol hnil htrue hfalse h

/-! ## Values -/

mutual

/-- The text begins with one that derives the value, after which `rest` comes. -/
inductive Derives : List Char → Value → List Char → Prop
  /-- A string between double quotes. -/
  | string {s t rest} : Spells s t →
      Derives ('"' :: (s ++ '"' :: rest)) (.string (String.ofList t)) rest
  /-- A longest run of atom characters. -/
  | atom {s v rest} : s ≠ [] → (∀ c ∈ s, isAtomChar c) → Ends rest → AtomMeans s v →
      Derives (s ++ rest) v rest
  /-- A list between parentheses. -/
  | list {s vs rest} : DerivesAll s vs rest → Derives ('(' :: s) (.list vs) rest

/-- The text begins with the elements of a list and its closing parenthesis. -/
inductive DerivesAll : List Char → List Value → List Char → Prop
  /-- No more elements. -/
  | close {s rest} : AfterBlanks s (')' :: rest) → DerivesAll s [] rest
  /-- One more element. -/
  | element {s t v vs r rest} : AfterBlanks s t → Derives t v r → DerivesAll r vs rest →
      DerivesAll s (v :: vs) rest

end

theorem AfterBlanks.length_le {s t : List Char} (h : AfterBlanks s t) : t.length ≤ s.length := by
  obtain ⟨blanks, rfl, -⟩ := h
  simp

mutual

theorem Derives.length_lt {s rest v} : Derives s v rest → rest.length < s.length
  | .string _ => by simp; omega
  | .atom (s := s) hne _ _ _ => by
    have := List.length_pos_iff.2 hne
    simp only [List.length_append]
    omega
  | .list h => Nat.lt_succ_of_lt h.length_lt

theorem DerivesAll.length_lt {s rest vs} : DerivesAll s vs rest → rest.length < s.length
  | .close hs => Nat.lt_of_lt_of_le (Nat.lt_succ_self _) hs.length_le
  | .element hs h hall => Nat.lt_of_lt_of_le (hall.length_lt.trans h.length_lt) hs.length_le

end

/-! ## The first token -/

/-- The first token of a text that derives a value. -/
inductive Starts : List Char → Value → List Char → Prop
  | text {s t rest} : Token.next? s = some (.text t, rest) →
      Starts s (.string (String.ofList t)) rest
  | atom {s t rest} : Token.next? s = some (.atom t, rest) → Starts s (atomValue t) rest
  | list {s vs r rest} : Token.next? s = some (.openList, r) → DerivesAll r vs rest →
      Starts s (.list vs) rest

theorem Derives.starts {s rest : List Char} {v : Value} (h : Derives s v rest) :
    Starts s v rest := by
  cases h with
  | string h => exact .text (Token.next?_of_lexeme (.text h))
  | atom hne hs hrest hv =>
    rw [← hv.atomValue_eq]
    exact .atom (Token.next?_atom hne hs hrest)
  | list h => exact .list (Token.next?_openList _) h

theorem DerivesAll.next? {s rest : List Char} (h : DerivesAll s [] rest) :
    Token.next? s = some (.closeList, rest) := by
  cases h with
  | close h => rw [h.next?, Token.next?_closeList]

theorem exists_derives_of_text {s t rest : List Char}
    (h : Token.next? s = some (.text t, rest)) :
    ∃ s', AfterBlanks s s' ∧ Derives s' (.string (String.ofList t)) rest := by
  obtain ⟨s', hs, hlex⟩ := Token.next?_eq_some_iff.1 h
  cases hlex with
  | text h => exact ⟨_, hs, .string h⟩

theorem exists_derives_of_atom {s t rest : List Char}
    (h : Token.next? s = some (.atom t, rest)) :
    ∃ s', AfterBlanks s s' ∧ Derives s' (atomValue t) rest := by
  obtain ⟨s', hs, hlex⟩ := Token.next?_eq_some_iff.1 h
  cases hlex with
  | atom hne hchars hrest => exact ⟨_, hs, .atom hne hchars hrest (atomMeans_atomValue t)⟩

theorem afterBlanks_of_openList {s rest : List Char}
    (h : Token.next? s = some (.openList, rest)) : AfterBlanks s ('(' :: rest) := by
  obtain ⟨s', hs, hlex⟩ := Token.next?_eq_some_iff.1 h
  cases hlex with
  | openList => exact hs

theorem afterBlanks_of_closeList {s rest : List Char}
    (h : Token.next? s = some (.closeList, rest)) : AfterBlanks s (')' :: rest) := by
  obtain ⟨s', hs, hlex⟩ := Token.next?_eq_some_iff.1 h
  cases hlex with
  | closeList => exact hs

theorem Starts.congr {s s' rest : List Char} {v : Value} (h : Starts s v rest)
    (hs : Token.next? s = Token.next? s') : Starts s' v rest := by
  cases h with
  | text h => exact .text (hs.symm.trans h)
  | atom h => exact .atom (hs.symm.trans h)
  | list h hall => exact .list (hs.symm.trans h) hall

/-- No value begins with a closing parenthesis. -/
theorem Starts.next?_ne_closeList {s rest r : List Char} {v : Value} (h : Starts s v rest) :
    Token.next? s ≠ some (.closeList, r) := by
  intro hclose
  rcases h with h | h | ⟨h, -⟩ <;> rw [hclose] at h <;> cases h

/-! ## Unambiguity -/

mutual

theorem Derives.unique_of_starts {s r v} : Derives s v r →
    ∀ {r' v'}, Starts s v' r' → v' = v ∧ r' = r
  | .string hs, _, _, h' => by
    have hnext : Token.next? _ = some (_, r) := Token.next?_of_lexeme (.text hs)
    cases h' with
    | text h => rw [hnext] at h; cases h; exact ⟨rfl, rfl⟩
    | atom h => rw [hnext] at h; cases h
    | list h => rw [hnext] at h; cases h
  | .atom hne hs hr hv, _, _, h' => by
    have hnext := Token.next?_atom hne hs hr
    cases h' with
    | text h => rw [hnext] at h; cases h
    | atom h => rw [hnext] at h; cases h; exact ⟨hv.atomValue_eq, rfl⟩
    | list h => rw [hnext] at h; cases h
  | .list hall, _, _, h' => by
    cases h' with
    | text h => rw [Token.next?_openList] at h; cases h
    | atom h => rw [Token.next?_openList] at h; cases h
    | list h hall' =>
      rw [Token.next?_openList] at h
      cases h
      obtain ⟨rfl, rfl⟩ := hall.unique hall'
      exact ⟨rfl, rfl⟩

/-- **Elements and what comes after them are determined by the text.** -/
theorem DerivesAll.unique {s r vs} : DerivesAll s vs r →
    ∀ {r' vs'}, DerivesAll s vs' r' → vs' = vs ∧ r' = r
  | .close hs, _, _, h' => by
    cases h' with
    | close hs' =>
      have := hs.next?.symm.trans hs'.next?
      rw [Token.next?_closeList, Token.next?_closeList] at this
      cases this
      exact ⟨rfl, rfl⟩
    | element hs' h' =>
      have := h'.starts.next?_ne_closeList (r := r)
      rw [← hs'.next?, hs.next?] at this
      exact absurd (Token.next?_closeList r) this
  | .element hs h hall, r', _, h' => by
    cases h' with
    | close hs' =>
      have := h.starts.next?_ne_closeList (r := r')
      rw [← hs.next?, hs'.next?] at this
      exact absurd (Token.next?_closeList r') this
    | element hs' h' hall' =>
      obtain ⟨rfl, rfl⟩ := h.unique_of_starts (h'.starts.congr (hs'.next?.symm.trans hs.next?))
      obtain ⟨rfl, rfl⟩ := hall.unique hall'
      exact ⟨rfl, rfl⟩

end

/-- **A text begins with at most one value**, after blanks. -/
theorem Derives.unique {s t t' r r' : List Char} {v v' : Value} (hs : AfterBlanks s t)
    (h : Derives t v r) (hs' : AfterBlanks s t') (h' : Derives t' v' r') : v' = v ∧ r' = r :=
  h.unique_of_starts (h'.starts.congr (hs'.next?.symm.trans hs.next?))

/-- What comes after the first element is the rest of the list. -/
theorem DerivesAll.tail {s t r rest : List Char} {v : Value} {vs : List Value}
    (hs : AfterBlanks s t) (h : Derives t v r) (hall : DerivesAll s vs rest) :
    ∃ vs', vs = v :: vs' ∧ DerivesAll r vs' rest := by
  cases hall with
  | close hs' =>
    have := h.starts.next?_ne_closeList (r := rest)
    rw [← hs.next?, hs'.next?] at this
    exact absurd (Token.next?_closeList rest) this
  | element hs' h' hall =>
    obtain ⟨rfl, rfl⟩ := h.unique hs hs' h'
    exact ⟨_, rfl, hall⟩

/-! ## How deep a text nests -/

/-- After some complete values, the text opens `n` lists inside each other, whether they
    are complete or not. -/
inductive Opens : Nat → List Char → Prop
  /-- No list at all. -/
  | zero (s) : Opens 0 s
  /-- A list, and `n` lists inside it. -/
  | enter {n s r} : AfterBlanks s ('(' :: r) → Opens n r → Opens (n + 1) s
  /-- A complete value, and the lists after it. -/
  | pass {n s t v r} : AfterBlanks s t → Derives t v r → Opens n r → Opens n s

theorem AtomMeans.not_list {s : List Char} {v : Value} (h : AtomMeans s v) :
    ∀ xs, v ≠ .list xs := by
  intro xs hv
  subst hv
  cases h

mutual

/-- **A value nests no deeper than its text opens lists.** -/
theorem Derives.nested_or_opens {s r v} : Derives s v r → ∀ n,
    v.Nested n ∨ ∃ r', s = '(' :: r' ∧ Opens n r'
  | .string _, n => .inl (Value.nested_of_not_list (by simp) n)
  | .atom _ _ _ hv, n => .inl (Value.nested_of_not_list hv.not_list n)
  | .list _, 0 => .inr ⟨_, rfl, .zero _⟩
  | .list hall, n + 1 => by
    rcases hall.nested_or_opens n with h | h
    · exact .inl (Value.nested_list.2 ⟨Nat.succ_pos n, h⟩)
    · exact .inr ⟨_, rfl, h⟩

theorem DerivesAll.nested_or_opens {s r vs} : DerivesAll s vs r → ∀ n,
    (∀ x ∈ vs, x.Nested n) ∨ Opens (n + 1) s
  | .close _, n => .inl (by simp)
  | .element hs h hall, n => by
    rcases h.nested_or_opens n with hv | ⟨r', rfl, ho⟩
    · rcases hall.nested_or_opens n with hvs | ho
      · exact .inl (List.forall_mem_cons.2 ⟨hv, hvs⟩)
      · exact .inr (.pass hs h ho)
    · exact .inr (.enter hs ho)

end

end LispCore

/-
  LispCore — the reader accepts exactly its grammar.

  The reader keeps a stack of open lists, the grammar has none.

  * `Outcome`: what reading on with lists open comes to, by what the grammar says of the
    rest of the text; `outcome`: it is one of these;
  * `Fits`: the first value of a text opens no more lists inside each other than the
    stack has room for; `fits_iff`: that is when the stack is not the fault;
  * `Reads`: what the grammar says of a text; `readOpen_eq_iff`: that is what the reader
    answers;
  * `World.read_iff_derives`: the same of `read-string`, with the texts of its errors.
-/
import LispCore.Proofs.Call
import LispCore.Proofs.Grammar
import LispCore.Proofs.Reading

namespace LispCore

/-! ## Inside a list -/

/-- What reading on from `s` comes to, with some lists open of which the innermost one has
    the given elements so far, the last one first. -/
inductive Outcome (elements : List Value) (stack : List (List Value)) (s : List Char) : Prop
  /-- The list is complete, and reading goes on after it. -/
  | complete {vs rest} : DerivesAll s vs rest →
      readOpen (elements :: stack) s = resume (.list (elements.reverse ++ vs)) rest stack →
      Outcome elements stack s
  /-- The list is never complete. -/
  | incomplete : (∀ vs rest, ¬ DerivesAll s vs rest) →
      readOpen (elements :: stack) s = .error .unmatchedOpen → Outcome elements stack s
  /-- The stack has no room for the lists that are opened. -/
  | exhausted : Opens (stackLevels - stack.length) s →
      readOpen (elements :: stack) s = .error .stackExhausted → Outcome elements stack s

/-- What reading comes to after one more element is what it comes to before it. -/
theorem Outcome.pass {elements : List Value} {stack : List (List Value)} {s t r : List Char}
    {v : Value} (hs : AfterBlanks s t) (h : Derives t v r)
    (hread : readOpen (elements :: stack) s = readOpen ((v :: elements) :: stack) r)
    (hr : Outcome (v :: elements) stack r) : Outcome elements stack s := by
  cases hr with
  | @complete vs rest hall heq =>
    refine .complete (.element hs h hall) ?_
    rw [hread, heq, List.reverse_cons, List.append_assoc, List.singleton_append]
  | incomplete hnone heq =>
    refine .incomplete (fun vs rest hall => ?_) (hread.trans heq)
    obtain ⟨vs', -, htail⟩ := hall.tail hs h
    exact hnone vs' rest htail
  | exhausted ho heq => exact .exhausted (.pass hs h ho) (hread.trans heq)

/-- A list inside: what reading its elements comes to settles what reading on comes to. -/
theorem Outcome.enter {elements : List Value} {stack : List (List Value)} {s r : List Char}
    (hs : Token.next? s = some (.openList, r)) (hin : Outcome [] (elements :: stack) r)
    (hafter : ∀ v r', r'.length < r.length → Outcome (v :: elements) stack r') :
    Outcome elements stack s := by
  have hopen := afterBlanks_of_openList hs
  have hread : readOpen (elements :: stack) s = _ := readOpen_openList hs
  split at hread
  · next hroom =>
    rw [List.length_cons] at hroom
    cases hin with
    | complete hall heq =>
      exact (hafter _ _ hall.length_lt).pass hopen (.list hall) (hread.trans heq)
    | incomplete hnone heq =>
      refine .incomplete (fun vs rest hall => ?_) (hread.trans heq)
      cases hall with
      | close hclose =>
        rw [hclose.next?, Token.next?_closeList] at hs
        cases hs
      | element hs' h' _ =>
        rw [hs'.next?] at hs
        rcases h'.starts with h | h | ⟨h, hall⟩ <;> rw [hs] at h <;> cases h
        exact hnone _ _ hall
    | exhausted ho heq =>
      refine .exhausted ?_ (hread.trans heq)
      have : stackLevels - stack.length = stackLevels - (elements :: stack).length + 1 := by
        rw [List.length_cons]
        omega
      rw [this]
      exact .enter hopen ho
  · next hroom =>
    rw [List.length_cons] at hroom
    refine .exhausted ?_ hread
    rcases Nat.eq_zero_or_pos (stackLevels - stack.length) with h | h
    · rw [h]
      exact .zero s
    · rw [show stackLevels - stack.length = 0 + 1 by omega]
      exact .enter hopen (.zero r)

/-- **Reading inside a list**: it is complete and read as the grammar says, or it is never
    complete, or the stack is exhausted. -/
theorem outcome (elements : List Value) (stack : List (List Value)) (s : List Char) :
    Outcome elements stack s := by
  cases hs : Token.next? s with
  | none =>
    refine .incomplete (fun vs rest hall => ?_) (readOpen_none hs elements)
    cases hall with
    | close hclose => rw [hclose.next?, Token.next?_closeList] at hs; cases hs
    | element hs' h' _ =>
      rw [hs'.next?] at hs
      rcases h'.starts with h | h | ⟨h, -⟩ <;> rw [hs] at h <;> cases h
  | some found =>
    obtain ⟨token, r⟩ := found
    have hlt := Token.length_of_next? hs
    cases token with
    | openList =>
      exact .enter hs (outcome [] (elements :: stack) r) fun v r' hr' =>
        outcome (v :: elements) stack r'
    | closeList =>
      refine .complete (.close (afterBlanks_of_closeList hs)) ?_
      rw [readOpen_closeList hs, List.append_nil]
    | text t =>
      obtain ⟨s', hs', h⟩ := exists_derives_of_text hs
      exact (outcome _ stack r).pass hs' h (readOpen_text hs)
    | atom t =>
      obtain ⟨s', hs', h⟩ := exists_derives_of_atom hs
      exact (outcome _ stack r).pass hs' h (readOpen_atom hs)
termination_by s.length

/-- A value is read, unless the stack has no room for the lists that it opens. -/
theorem readOpen_of_derives {s t r : List Char} {v : Value} (hs : AfterBlanks s t)
    (h : Derives t v r) (stack : List (List Value)) :
    readOpen stack s = resume v r stack ∨ readOpen stack s = .error .stackExhausted ∧
      ∃ r', AfterBlanks s ('(' :: r') ∧ Opens (stackLevels - stack.length) r' := by
  cases h.starts with
  | text hnext => exact Or.inl (readOpen_text (hs.next?.trans hnext))
  | atom hnext => exact Or.inl (readOpen_atom (hs.next?.trans hnext))
  | @list vs r' _ hnext hall =>
    have hs' := hs.next?.trans hnext
    have hopen := afterBlanks_of_openList hs'
    rw [readOpen_openList hs']
    split
    · cases outcome [] stack r' with
      | complete hall' heq =>
        obtain ⟨rfl, rfl⟩ := hall.unique hall'
        exact Or.inl heq
      | incomplete hnone _ => exact absurd hall (hnone vs r)
      | exhausted ho heq => exact Or.inr ⟨heq, r', hopen, ho⟩
    · next hroom =>
      refine Or.inr ⟨rfl, r', hopen, ?_⟩
      rw [Nat.sub_eq_zero_of_le (Nat.not_lt.1 hroom)]
      exact .zero r'

/-- Lists for which the stack has no room are the fault, wherever they are opened. -/
theorem readOpen_of_opens {n : Nat} {s : List Char} (h : Opens n s) :
    ∀ (elements : List Value) (stack : List (List Value)), stack.length < stackLevels →
      n = stackLevels - stack.length →
      readOpen (elements :: stack) s = .error .stackExhausted := by
  induction h with
  | zero s =>
    intro elements stack hroom hn
    omega
  | @enter n s r hs _ ih =>
    intro elements stack hroom hn
    rw [readOpen_openList (hs.next?.trans (Token.next?_openList r))]
    split
    · next hroom' =>
      refine ih [] (elements :: stack) hroom' ?_
      rw [List.length_cons]
      omega
    · rfl
  | @pass n s t v r hs h _ ih =>
    intro elements stack hroom hn
    rcases readOpen_of_derives hs h (elements :: stack) with hread | ⟨hread, -⟩
    · rw [hread]
      exact ih (v :: elements) stack hroom hn
    · exact hread

/-! ## Whole texts -/

/-- The first value of the text, complete or not, opens no more lists inside each other
    than the stack has room for. -/
def Fits (s : List Char) : Prop := ∀ r, AfterBlanks s ('(' :: r) → ¬ Opens stackLevels r

/-- What the grammar says of a text. -/
inductive Reads (s : List Char) : Except ReadFault Value → Prop
  /-- It begins with a value, after blanks. -/
  | value {t v r} : AfterBlanks s t → Derives t v r → Reads s (.ok v)
  /-- It holds nothing but blanks. -/
  | nothing : (∀ c ∈ s, Text.isBlank c) → Reads s (.error .nothingThere)
  /-- It begins with a closing parenthesis. -/
  | close {r} : AfterBlanks s (')' :: r) → Reads s (.error .unexpectedClose)
  /-- It begins with an opening parenthesis after which no list is complete. -/
  | unmatched {r} : AfterBlanks s ('(' :: r) → (∀ vs rest, ¬ DerivesAll r vs rest) →
      Reads s (.error .unmatchedOpen)
  /-- It begins with a double quote after which no string is complete. -/
  | unquoted {c s' r} : s = c :: s' → AfterBlanks s ('"' :: r) →
      (∀ body t rest, r = body ++ '"' :: rest → ¬ Spells body t) →
      Reads s (.error (.unexpectedChar c))

theorem exists_reads (s : List Char) : ∃ o, Reads s o := by
  cases hs : Token.next? s with
  | none =>
    rcases Token.next?_eq_none hs with hblank | ⟨r, hquote, hnone⟩
    · exact ⟨_, .nothing hblank⟩
    · obtain ⟨c, s', rfl⟩ : ∃ c s', s = c :: s' := by
        obtain ⟨blanks, rfl, -⟩ := hquote
        exact List.exists_cons_of_ne_nil (by simp)
      refine ⟨_, .unquoted rfl hquote fun body t rest hr hspells => ?_⟩
      rw [hr, literalBody?_of_spells hspells] at hnone
      cases hnone
  | some found =>
    obtain ⟨token, r⟩ := found
    cases token with
    | openList =>
      have hopen := afterBlanks_of_openList hs
      by_cases h : ∃ vs rest, DerivesAll r vs rest
      · obtain ⟨vs, rest, hall⟩ := h
        exact ⟨_, .value hopen (.list hall)⟩
      · exact ⟨_, .unmatched hopen fun vs rest hall => h ⟨vs, rest, hall⟩⟩
    | closeList => exact ⟨_, .close (afterBlanks_of_closeList hs)⟩
    | text t =>
      obtain ⟨s', hs', h⟩ := exists_derives_of_text hs
      exact ⟨_, .value hs' h⟩
    | atom t =>
      obtain ⟨s', hs', h⟩ := exists_derives_of_atom hs
      exact ⟨_, .value hs' h⟩

theorem noTokenFault_of_blank {s : List Char} (h : s.dropWhile Text.isBlank = []) :
    noTokenFault s = .nothingThere := by
  unfold noTokenFault
  rw [h]
  cases s <;> rfl

theorem noTokenFault_cons {c d : Char} {s r : List Char}
    (h : (c :: s).dropWhile Text.isBlank = d :: r) :
    noTokenFault (c :: s) = .unexpectedChar c := by
  unfold noTokenFault
  rw [h]

theorem readOpen_nil_of_none {s : List Char} (h : Token.next? s = none) :
    readOpen [] s = .error (noTokenFault s) := by
  rw [readOpen.eq_def]
  split <;> rename_i h' <;> rw [h] at h' <;> cases h'
  rfl

/-- **The reader answers what the grammar says.** -/
theorem readOpen_of_reads {s : List Char} {o : Except ReadFault Value} (hfits : Fits s)
    (h : Reads s o) : readOpen [] s = o := by
  cases h with
  | @value t v r hs h =>
    rcases readOpen_of_derives hs h [] with hread | ⟨-, r', hs', ho⟩
    · exact hread
    · exact absurd ho (hfits r' hs')
  | nothing hblank =>
    have hdrop : s.dropWhile Text.isBlank = [] := List.dropWhile_eq_nil_iff.2 hblank
    have hnone : Token.next? s = none := by rw [Token.next?, hdrop]; rfl
    rw [readOpen_nil_of_none hnone, noTokenFault_of_blank hdrop]
  | @close r hs => exact readOpen_nil_of_closeList (hs.next?.trans (Token.next?_closeList r))
  | @unmatched r hs hnone =>
    rw [readOpen_openList (hs.next?.trans (Token.next?_openList r)), if_pos (by decide)]
    cases outcome [] [] r with
    | complete hall _ => exact absurd hall (hnone _ _)
    | incomplete _ heq => exact heq
    | exhausted ho _ => exact absurd ho (hfits r hs)
  | @unquoted c s' r hcons hs hnone =>
    have hnext : Token.next? s = none := by
      rw [hs.next?, Token.next?_of_not_blank (by decide)]
      cases hr : literalBody? r with
      | none => simp [Token.first?, hr]
      | some found =>
        obtain ⟨body, hbody, hspells⟩ := spells_of_literalBody? hr
        exact absurd hspells (hnone body _ _ hbody)
    have hdrop := hs.dropWhile
    rw [List.dropWhile_cons_of_neg (by decide)] at hdrop
    subst hcons
    rw [readOpen_nil_of_none hnext, noTokenFault_cons hdrop]

theorem readOpen_eq_iff {s : List Char} (hfits : Fits s) {o : Except ReadFault Value} :
    readOpen [] s = o ↔ Reads s o := by
  constructor
  · rintro rfl
    obtain ⟨o, h⟩ := exists_reads s
    rwa [readOpen_of_reads hfits h]
  · exact readOpen_of_reads hfits

/-- **The stack is the fault just where a text does not fit.** -/
theorem fits_iff {s : List Char} : Fits s ↔ readOpen [] s ≠ .error .stackExhausted := by
  constructor
  · intro hfits hread
    rw [readOpen_eq_iff hfits] at hread
    cases hread
  · intro hread r hs ho
    refine hread ?_
    rw [readOpen_openList (hs.next?.trans (Token.next?_openList r)), if_pos (by decide)]
    exact readOpen_of_opens ho [] [] (by decide) rfl

/-! ## The texts of faults -/

namespace ReadFault

/-- The twelfth character of a fault's text, in which faults differ. -/
def mark : ReadFault → Char
  | nothingThere => 'E'
  | unexpectedClose => '\''
  | unmatchedOpen => '('
  | unexpectedChar _ => 'c'
  | stackExhausted => ':'

theorem getElem?_unexpectedChar (text : String) :
    ("Unexpected char " ++ text).toList[11]? = some 'c' := by
  rw [String.toList_append, List.getElem?_append_left (by decide +kernel)]
  decide +kernel

theorem message_unexpectedChar (c : Char) : (unexpectedChar c).message =
    "Unexpected char " ++ ("at 0: " ++ String.ofList (Text.quoted [c])) := by
  rw [← String.append_assoc]
  rfl

theorem getElem?_message (fault : ReadFault) : fault.message.toList[11]? = some fault.mark := by
  cases fault with
  | unexpectedChar c => rw [message_unexpectedChar, getElem?_unexpectedChar, mark]
  | _ => decide +kernel

/-- Faults of different sorts have different texts. -/
theorem mark_eq_of_message_eq {fault fault' : ReadFault} (h : fault.message = fault'.message) :
    fault.mark = fault'.mark := by
  have := getElem?_message fault
  rw [h, getElem?_message] at this
  exact (Option.some.inj this).symm

theorem eq_of_message_eq {fault fault' : ReadFault} (h : fault.message = fault'.message)
    (hfault : ∀ c, fault' ≠ unexpectedChar c) : fault = fault' := by
  have := mark_eq_of_message_eq h
  cases fault' with
  | unexpectedChar c => exact absurd rfl (hfault c)
  | _ => cases fault <;> simp [mark] at this ⊢

theorem exists_message_eq_iff {fault : ReadFault} :
    (∃ text, fault.message = "Unexpected char " ++ text) ↔ ∃ c, fault = .unexpectedChar c := by
  constructor
  · rintro ⟨text, h⟩
    have := getElem?_message fault
    rw [h, getElem?_unexpectedChar] at this
    cases fault with
    | unexpectedChar c => exact ⟨c, rfl⟩
    | _ => simp [mark] at this
  · rintro ⟨c, rfl⟩
    exact ⟨_, message_unexpectedChar c⟩

end ReadFault

/-! ## The primitive -/

namespace World

/-- `read-string` refuses a source text as malformed, in these words. -/
def Refuses (world : World) (source text : String) : Prop :=
  ∃ e, (world.callByName "read-string" [.string source]).result = .error e ∧
    e.kind = .grammar ∧ e.message = text

section
variable {world : World} (hreader : world.scope.reader = .grammar) {s : String}
include hreader

theorem result_readString :
    (world.callByName "read-string" [.string s]).result =
      (readOpen [] s.toList).mapError .unreadable := by
  rw [world.callByName_grammar hreader]
  rfl

theorem result_readString_eq_ok {v : Value} :
    (world.callByName "read-string" [.string s]).result = .ok v ↔
      readOpen [] s.toList = .ok v := by
  rw [result_readString hreader]
  cases readOpen [] s.toList <;> simp [Except.mapError]

theorem refuses_iff {text : String} : world.Refuses s text ↔
    ∃ fault, readOpen [] s.toList = .error fault ∧ fault.message = text := by
  rw [Refuses, result_readString hreader]
  constructor
  · rintro ⟨e, he, -, hmessage⟩
    cases hread : readOpen [] s.toList with
    | ok v => rw [hread] at he; cases he
    | error fault => rw [hread] at he; cases he; exact ⟨fault, rfl, hmessage⟩
  · rintro ⟨fault, hread, hmessage⟩
    rw [hread]
    exact ⟨_, rfl, rfl, hmessage⟩

theorem refuses_message_iff (fault : ReadFault) (hfault : ∀ c, fault ≠ .unexpectedChar c) :
    world.Refuses s fault.message ↔ readOpen [] s.toList = .error fault := by
  rw [refuses_iff hreader]
  constructor
  · rintro ⟨fault', hread, hmessage⟩
    rw [hread, ReadFault.eq_of_message_eq hmessage hfault]
  · intro hread
    exact ⟨fault, hread, rfl⟩

end

/-- **`read-string` accepts exactly the grammar**, and its errors say what is wrong with any
    other text. -/
theorem read_iff_derives (world : World) (hreader : world.scope.reader = .grammar) (s : String)
    (hfits : Fits s.toList) :
    (∀ v, (world.callByName "read-string" [.string s]).result = .ok v ↔
      ∃ t r, AfterBlanks s.toList t ∧ Derives t v r) ∧
    ((¬ ∃ v t r, AfterBlanks s.toList t ∧ Derives t v r) → ∃ text, world.Refuses s text) ∧
    (world.Refuses s "Unexpected EOF" ↔ ∀ c ∈ s.toList, Text.isBlank c) ∧
    (world.Refuses s "Unexpected ')'" ↔ ∃ r, AfterBlanks s.toList (')' :: r)) ∧
    (world.Refuses s "Unmatched '('" ↔
      ∃ r, AfterBlanks s.toList ('(' :: r) ∧ ∀ vs rest, ¬ DerivesAll r vs rest) ∧
    ((∃ text, world.Refuses s ("Unexpected char " ++ text)) ↔
      ∃ r, AfterBlanks s.toList ('"' :: r) ∧
        ∀ body t rest, r = body ++ '"' :: rest → ¬ Spells body t) := by
  have hrefuses (fault : ReadFault) (hfault : ∀ c, fault ≠ .unexpectedChar c) :
      world.Refuses s fault.message ↔ Reads s.toList (.error fault) :=
    (refuses_message_iff hreader fault hfault).trans (readOpen_eq_iff hfits)
  refine ⟨fun v => ?_, fun hnone => ?_, ?_, ?_, ?_, ?_⟩
  · rw [result_readString_eq_ok hreader, readOpen_eq_iff hfits]
    exact ⟨fun | .value hs h => ⟨_, _, hs, h⟩, fun ⟨_, _, hs, h⟩ => .value hs h⟩
  · obtain ⟨o, ho⟩ := exists_reads s.toList
    cases o with
    | ok v => cases ho with | value hs h => exact absurd ⟨v, _, _, hs, h⟩ hnone
    | error fault =>
      exact ⟨_, (refuses_iff hreader).2 ⟨fault, readOpen_of_reads hfits ho, rfl⟩⟩
  · refine (hrefuses .nothingThere (by simp)).trans ?_
    exact ⟨fun | .nothing h => h, .nothing⟩
  · refine (hrefuses .unexpectedClose (by simp)).trans ?_
    exact ⟨fun | .close hs => ⟨_, hs⟩, fun ⟨_, hs⟩ => .close hs⟩
  · refine (hrefuses .unmatchedOpen (by simp)).trans ?_
    exact ⟨fun | .unmatched hs h => ⟨_, hs, h⟩, fun ⟨_, hs, h⟩ => .unmatched hs h⟩
  · constructor
    · rintro ⟨text, h⟩
      obtain ⟨fault, hread, hmessage⟩ := (refuses_iff hreader).1 h
      obtain ⟨c, rfl⟩ := ReadFault.exists_message_eq_iff.1 ⟨text, hmessage⟩
      cases (readOpen_eq_iff hfits).1 hread with
      | unquoted _ hs h => exact ⟨_, hs, h⟩
    · rintro ⟨r, hs, h⟩
      obtain ⟨c, s', hcons⟩ : ∃ c s', s.toList = c :: s' := by
        obtain ⟨blanks, hs, -⟩ := hs
        exact List.exists_cons_of_ne_nil (by simp [hs])
      have hread := readOpen_of_reads hfits (.unquoted hcons hs h)
      obtain ⟨text, hmessage⟩ := ReadFault.exists_message_eq_iff.2 ⟨c, rfl⟩
      exact ⟨text, (refuses_iff hreader).2 ⟨_, hread, hmessage⟩⟩

/-- An open list that ends with a word glued to a string is never complete. -/
theorem refuses_open : (initial {} .empty .grammar).scope.reader = .grammar ∧
    Fits " (a\"b\" ".toList ∧ (initial {} .empty .grammar).Refuses " (a\"b\" " "Unmatched '('" ∧
    ∃ r, AfterBlanks " (a\"b\" ".toList ('(' :: r) ∧ ∀ vs rest, ¬ DerivesAll r vs rest := by
  have hread : readOpen [] " (a\"b\" ".toList = .error .unmatchedOpen := by
    rw [readOpen_openList (r := "a\"b\" ".toList) (by decide +kernel), if_pos (by decide),
      readOpen_atom (t := ['a']) (r := "\"b\" ".toList) (by decide +kernel), resume,
      readOpen_text (t := ['b']) (r := [' ']) (by decide +kernel), resume,
      readOpen_none (by decide +kernel)]
  have hfits : Fits " (a\"b\" ".toList := by
    rw [fits_iff, hread]
    simp
  have hrefuses : (initial {} .empty .grammar).Refuses " (a\"b\" " "Unmatched '('" :=
    (refuses_message_iff rfl .unmatchedOpen (by simp)).2 hread
  exact ⟨rfl, hfits, hrefuses,
    (read_iff_derives _ rfl " (a\"b\" " hfits).2.2.2.2.1.1 hrefuses⟩

end World

end LispCore

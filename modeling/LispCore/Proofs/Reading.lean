/-
  LispCore — reading what is written.

  * `resume`: reading on after a value, which either is the answer or goes into the
    innermost open list;
  * `ReadsAs`: wherever a text stands in a source, as far as the stack allows, it is
    read as a value of the given nesting;
  * `readsAs_list`: texts that are read as values make up a list that is read as the list
    of these values.
-/
import Mathlib.Data.List.Forall2
import LispCore.Proofs.Tokens
import LispCore.Reader.Grammar
import LispCore.Value.Printer

namespace LispCore

/-- Reading on after a value. -/
def resume (v : Value) (rest : List Char) : List (List Value) → Except ReadFault Value
  | [] => .ok v
  | elements :: more => readOpen ((v :: elements) :: more) rest

section
variable {stack : List (List Value)} {s t r : List Char}

theorem readOpen_none (h : Token.next? s = none) (elements : List Value) :
    readOpen (elements :: stack) s = .error .unmatchedOpen := by
  rw [readOpen.eq_def]
  split <;> rename_i h' <;> rw [h] at h' <;> cases h'
  rw [if_neg (List.cons_ne_nil elements stack)]

theorem readOpen_openList (h : Token.next? s = some (.openList, r)) :
    readOpen stack s =
      if stack.length < stackLevels then readOpen ([] :: stack) r
      else .error .stackExhausted := by
  rw [readOpen.eq_def]
  split <;> rename_i h' <;> rw [h] at h' <;> cases h'
  rfl

theorem readOpen_closeList (h : Token.next? s = some (.closeList, r))
    (elements : List Value) :
    readOpen (elements :: stack) s = resume (.list elements.reverse) r stack := by
  rw [readOpen.eq_def]
  split <;> rename_i h' <;> rw [h] at h' <;> cases h'
  cases stack <;> rfl

theorem readOpen_text (h : Token.next? s = some (.text t, r)) :
    readOpen stack s = resume (.string (String.ofList t)) r stack := by
  rw [readOpen.eq_def]
  split <;> rename_i h' <;> rw [h] at h' <;> cases h'
  cases stack <;> rfl

theorem readOpen_atom (h : Token.next? s = some (.atom t, r)) :
    readOpen stack s = resume (atomValue t) r stack := by
  rw [readOpen.eq_def]
  split <;> rename_i h' <;> rw [h] at h' <;> cases h'
  cases stack <;> rfl

theorem readOpen_nil_of_closeList (h : Token.next? s = some (.closeList, r)) :
    readOpen [] s = .error .unexpectedClose := by
  rw [readOpen.eq_def]
  split <;> rename_i h' <;> rw [h] at h' <;> cases h'

/-- Texts with the same first token, and the same after it, are read alike.  Where there is
    no token, only the fault of the whole text could tell them apart. -/
theorem readOpen_congr {s' : List Char} (h : Token.next? s = Token.next? s')
    (hstack : Token.next? s' = none → stack ≠ []) : readOpen stack s = readOpen stack s' := by
  cases hs : Token.next? s' with
  | none =>
    obtain ⟨elements, stack, rfl⟩ := List.exists_cons_of_ne_nil (hstack hs)
    rw [readOpen_none (h.trans hs), readOpen_none hs]
  | some found =>
    obtain ⟨token, r⟩ := found
    cases token with
    | openList => rw [readOpen_openList (h.trans hs), readOpen_openList hs]
    | closeList =>
      cases stack with
      | nil => rw [readOpen_nil_of_closeList (h.trans hs), readOpen_nil_of_closeList hs]
      | cons => rw [readOpen_closeList (h.trans hs), readOpen_closeList hs]
    | text t => rw [readOpen_text (h.trans hs), readOpen_text hs]
    | atom t => rw [readOpen_atom (h.trans hs), readOpen_atom hs]

theorem readOpen_space (elements : List Value) :
    readOpen (elements :: stack) (' ' :: s) = readOpen (elements :: stack) s :=
  readOpen_congr (Token.next?_space s) fun _ => List.cons_ne_nil elements stack

end

/-- Wherever the text stands, it is read as the value, if the stack has room for `n`
    lists inside each other. -/
def ReadsAs (t : String) (v : Value) (n : Nat) : Prop :=
  ∀ stack rest, Ends rest → stack.length + n ≤ stackLevels →
    readOpen stack (t.toList ++ rest) = resume v rest stack

theorem readsAs_atom {t : String} {n : Nat} (hne : t.toList ≠ [])
    (ht : ∀ c ∈ t.toList, isAtomChar c) : ReadsAs t (atomValue t.toList) n :=
  fun _ _ hrest _ => readOpen_atom (Token.next?_atom hne ht hrest)

theorem readsAs_string (s : String) (n : Nat) : ReadsAs (escapeString s) (.string s) n := by
  intro stack rest _ _
  rw [escapeString, String.toList_ofList, readOpen_text (Token.next?_text s.toList rest),
    String.ofList_toList]

/-- The texts of elements, with a space between them and a parenthesis at the end, are
    read up to the end of the list. -/
theorem readOpen_elements {n : Nat} {ts : List String} {vs : List Value}
    (h : List.Forall₂ (fun t v => ReadsAs t v n) ts vs) {stack : List (List Value)}
    (hstack : stack.length + 1 + n ≤ stackLevels) (elements : List Value) (rest : List Char) :
    readOpen (elements :: stack) ((joinWith " " ts).toList ++ ')' :: rest) =
      resume (.list (elements.reverse ++ vs)) rest stack := by
  induction h generalizing elements with
  | nil =>
    rw [joinWith, List.append_nil]
    exact readOpen_closeList (Token.next?_closeList rest) elements
  | @cons t v ts vs ht hts ih =>
    have hgo := ih (v :: elements)
    rw [List.reverse_cons, List.append_assoc, List.singleton_append] at hgo
    cases hts with
    | nil =>
      rw [joinWith, ht (elements :: stack) _ (ends_close rest) hstack]
      exact hgo
    | cons =>
      rw [joinWith, String.toList_append, String.toList_append, List.append_assoc,
        List.append_assoc, show " ".toList = [' '] from rfl, List.singleton_append,
        ht (elements :: stack) _ (ends_space _) hstack]
      exact (readOpen_space (v :: elements)).trans hgo

/-- **A list of texts that are read as values is read as the list of these values.** -/
theorem readsAs_list {n : Nat} {ts : List String} {vs : List Value}
    (h : List.Forall₂ (fun t v => ReadsAs t v n) ts vs) :
    ReadsAs ("(" ++ joinWith " " ts ++ ")") (.list vs) (n + 1) := by
  intro stack rest _ hstack
  have htext : ("(" ++ joinWith " " ts ++ ")").toList ++ rest =
      '(' :: ((joinWith " " ts).toList ++ ')' :: rest) := by
    rw [String.toList_append, String.toList_append]
    simp
  rw [htext, readOpen_openList (Token.next?_openList _), if_pos (by omega),
    readOpen_elements h (by omega) [] rest]
  rfl

end LispCore

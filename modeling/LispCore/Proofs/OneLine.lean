/-
  LispCore — readable text stays on one line.

  Only the name of a symbol can break a line: newlines in strings are escaped, at whatever depth
  the strings lie, and no other text has one.

  * `Value.Unbroken`: not a symbol with a newline in its name;
  * `newline_not_mem_escape`, `newline_not_mem_number`: literals and numbers have no newline;
  * `Value.newline_not_mem_render_iff`: a readable text has none just if no symbol has one;
  * `World.prn_one_line`: `prn` writes one newline, at the end.
-/
import LispCore.Proofs.NumberText
import LispCore.Proofs.Output

namespace LispCore

/-! ## Atoms -/

/-- A literal has no newline, whatever it is the literal of. -/
theorem newline_not_mem_escape (s : List Char) : '\n' ∉ Text.escape s := by
  have hchar (c : Char) : '\n' ∉ Text.escapeChar c := by
    unfold Text.escapeChar
    split_ifs with h h h
    · decide
    · decide
    · decide
    · simpa using Ne.symm h
  simp [Text.escape, hchar]

theorem newline_not_mem_number (x : Double) : '\n' ∉ (formatNumber x).toList := by
  intro h
  have hatom : isAtomChar '\n' := (Double.numberChar_of_mem_text h).spec.2.2
  exact absurd hatom (by decide)

namespace Value

/-- The value is no symbol with a newline in its name. -/
def Unbroken (v : Value) : Prop := ∀ s, v = symbol s → '\n' ∉ s.toList

theorem newline_not_mem_atom_iff {v : Value} (hv : ∀ xs, v ≠ list xs) {t : String}
    (h : v.text .readable 0 = .ok t) : '\n' ∉ t.toList ↔ v.Unbroken := by
  unfold text render at h
  rw [depthError?_of_le (Nat.le_refl 0) (Nat.zero_le _)] at h
  cases v with
  | list xs => exact absurd rfl (hv xs)
  | foreign _ => cases h
  | symbol s =>
    cases h
    simp [Unbroken]
  | integer n =>
    dsimp only at h
    cases hn : widen n with
    | error _ => rw [hn] at h; cases h
    | ok x =>
      rw [hn] at h
      cases h
      exact iff_of_true (newline_not_mem_number x) fun _ hs => by cases hs
  | number x =>
    cases h
    exact iff_of_true (newline_not_mem_number x) fun _ hs => by cases hs
  | string s =>
    cases h
    refine iff_of_true ?_ fun _ hs => by cases hs
    rw [escapeString, String.toList_ofList]
    exact newline_not_mem_escape s.toList
  | boolean b =>
    cases h
    exact iff_of_true (by cases b <;> decide) fun _ hs => by cases hs
  | nil | function _ =>
    cases h
    exact iff_of_true (by decide) fun _ hs => by cases hs

end Value

/-! ## Sequences -/

/-- Separators without a newline add none. -/
theorem newline_not_mem_intercalate_iff : ∀ texts : List String,
    '\n' ∉ (" ".intercalate texts).toList ↔ ∀ t ∈ texts, '\n' ∉ t.toList
  | [] => by simp
  | [t] => by simp
  | t :: u :: texts => by
    rw [String.intercalate_cons_cons, List.forall_mem_cons,
      ← newline_not_mem_intercalate_iff (u :: texts)]
    simp

theorem Texts.newline_not_mem_iff {limit depth : ℕ} {xs : List Value} {texts : List String}
    {P : Value → Prop} (h : Texts .readable limit depth xs texts)
    (hP : ∀ x ∈ xs, ∀ t, x.render .readable limit depth = .ok t → ('\n' ∉ t.toList ↔ P x)) :
    '\n' ∉ (" ".intercalate texts).toList ↔ ∀ x ∈ xs, P x := by
  rw [newline_not_mem_intercalate_iff]
  induction h with
  | nil => simp
  | cons ht _ ih =>
    rw [List.forall_mem_cons, List.forall_mem_cons, hP _ List.mem_cons_self _ ht,
      ih fun y hy => hP y (List.mem_cons_of_mem _ hy)]

namespace Value

theorem le_of_render {mode : Mode} {limit depth : ℕ} {v : Value} {t : String}
    (h : v.render mode limit depth = .ok t) : depth ≤ limit ∧ depth ≤ stackLevels := by
  by_contra hd
  obtain ⟨e, he, -⟩ := exists_depthError? .rendering hd
  rw [render_of_depthError? he] at h
  cases h

/-- **A readable text has no newline just if no symbol in the value has one.** -/
theorem newline_not_mem_render_iff {limit : ℕ} (v : Value) : ∀ {depth t},
    v.render .readable limit depth = .ok t →
    ('\n' ∉ t.toList ↔ ∀ p w, v.at? p = some w → w.Unbroken) := by
  induction v using Value.induction with
  | atom v hv =>
    intro depth t h
    obtain ⟨hd, hs⟩ := le_of_render h
    rw [render_atom hd hs hv] at h
    rw [newline_not_mem_atom_iff hv h]
    exact (forall_positions_atom (P := fun _ w => w.Unbroken) hv).symm
  | node xs ih =>
    intro depth t h
    obtain ⟨hd, hs⟩ := le_of_render h
    rw [render_list hd hs] at h
    cases hall : renderAll .readable limit (depth + 1) xs with
    | error e =>
      rw [hall] at h
      cases h
    | ok texts =>
      rw [hall] at h
      cases h
      have hlist : (list xs).Unbroken := fun _ hs => by cases hs
      rw [forall_positions_list (P := fun _ w => w.Unbroken), and_iff_right hlist,
        ← (texts_of_renderAll hall).newline_not_mem_iff fun x hx t => ih x hx, ← joinWith_eq]
      simp

end Value

namespace World

/-- **`prn` writes exactly one line.**  If no symbol in the arguments has a newline in its name,
    at any depth, then what `prn` writes when it succeeds has one newline, and that is at the
    end; for no readable text of such a value has a newline, whatever the limit and whatever
    the strings in it. -/
theorem prn_one_line (world : World) (ns : Namespace) {arguments : List Value}
    (h : ∀ a ∈ arguments, ∀ p s, a.at? p = some (.symbol s) → '\n' ∉ s.toList) :
    ∃ f, ns.lookup "prn" = .ok f ∧
      (∀ v, (f.apply world arguments).result = .ok v →
        (f.apply world arguments).out.toList.count '\n' = 1 ∧
        (f.apply world arguments).out.toList.getLast? = some '\n') ∧
      ∀ a ∈ arguments, ∀ limit t, a.text .readable limit = .ok t → '\n' ∉ t.toList := by
  have htext : ∀ a ∈ arguments, ∀ limit t, a.text .readable limit = .ok t → '\n' ∉ t.toList := by
    intro a ha limit t ht
    refine (Value.newline_not_mem_render_iff a ht).2 fun p w hw s hs => ?_
    exact h a ha p s (hs ▸ hw)
  refine ⟨.entry .prn ns.reader, ns.lookup_name .prn, fun v hv => ?_, htext⟩
  rw [Function.apply_line (p := .prn) rfl] at hv ⊢
  rcases printLine_cases .readable world.depthLimit arguments with
    ⟨texts, htexts, -, hline⟩ | ⟨e, -, -, hline⟩ <;> rw [hline] at hv ⊢
  · have hone : '\n' ∉ (" ".intercalate texts).toList :=
      (htexts.newline_not_mem_iff (P := fun _ => True) fun x hx t ht =>
        iff_of_true (htext x hx _ t ht) trivial).2 fun _ _ => trivial
    rw [String.toList_append, List.count_append, List.count_eq_zero_of_not_mem hone]
    exact ⟨by decide, by simp⟩
  · cases hv

/-- Newlines in strings, at two depths, beside a symbol without one. -/
theorem prn_one_line_newlines :
    (∀ a ∈ [Value.string "a\n", .list [.symbol "x", .string "\n\n"]],
      ∀ p s, a.at? p = some (.symbol s) → '\n' ∉ s.toList) ∧
    ∃ f, (Namespace.mk .absent).lookup "prn" = .ok f ∧
      (f.apply (initial {} .empty .absent)
        [.string "a\n", .list [.symbol "x", .string "\n\n"]]).result = .ok .nil ∧
      (f.apply (initial {} .empty .absent)
        [.string "a\n", .list [.symbol "x", .string "\n\n"]]).out.toList.count '\n' = 1 := by
  have hatom {v : Value} (hv : ∀ xs, v ≠ .list xs) (hu : v.Unbroken) :
      ∀ p w, v.at? p = some w → w.Unbroken :=
    (Value.forall_positions_atom (P := fun _ w => w.Unbroken) hv).2 hu
  have hstring (s : String) : ∀ p w, (Value.string s).at? p = some w → w.Unbroken :=
    hatom (by simp) fun _ hs => by cases hs
  have hsymbol : ∀ p w, (Value.symbol "x").at? p = some w → w.Unbroken :=
    hatom (by simp) fun _ hs => by cases hs; decide
  have hnone : ∀ a ∈ [Value.string "a\n", .list [.symbol "x", .string "\n\n"]],
      ∀ p s, a.at? p = some (.symbol s) → '\n' ∉ s.toList := by
    intro a ha p s hs
    rcases List.mem_pair.1 ha with rfl | rfl
    · exact hstring _ p _ hs s rfl
    · refine (Value.forall_positions_list (P := fun _ w => w.Unbroken)).2
        ⟨fun _ hs => (by cases hs), fun x hx => ?_⟩ p _ hs s rfl
      rcases List.mem_pair.1 hx with rfl | rfl
      · exact hsymbol
      · exact hstring _
  obtain ⟨f, hf, hline, -⟩ := prn_one_line (initial {} .empty .absent) ⟨.absent⟩ hnone
  have hresult : (f.apply (initial {} .empty .absent)
      [.string "a\n", .list [.symbol "x", .string "\n\n"]]).result = .ok .nil := by
    cases (Namespace.lookup_name ⟨.absent⟩ .prn).symm.trans hf
    rfl
  exact ⟨hnone, f, hf, hresult, (hline .nil hresult).1⟩

end World

end LispCore

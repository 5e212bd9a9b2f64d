/-
  LispCore — what is printed reads back.

  * `Value.Readable`: the values whose readable text the reader of the grammar
    understands;
  * `Value.canonical`: a value with doubles in the place of integers, which is how it
    reads back;
  * `Value.Legible`: the same and `nan`, and integers that have to be rounded;
  * `Value.Legible.render_readsAs`: the text of a legible value is read as its canonical
    value;
  * `World.print_read`: the same of `pr-str`, `read-string` and `=`.
-/
import LispCore.Proofs.Call
import LispCore.Proofs.EqualityLaws
import LispCore.Proofs.Grammar
import LispCore.Proofs.NumberText
import LispCore.Proofs.Reading

namespace LispCore

/-! ## Atoms -/

/-- The names of symbols that read back. -/
structure IsName (s : String) : Prop where
  ne_empty : s ≠ ""
  chars : ∀ c ∈ s.toList, ¬ Text.isBlank c ∧ c ≠ '(' ∧ c ≠ ')' ∧ c ≠ '"'
  ne_nil : s ≠ "nil"
  ne_true : s ≠ "true"
  ne_false : s ≠ "false"
  not_number : Double.ofLiteral? s.toList = none

theorem IsName.atomValue {s : String} (h : IsName s) : atomValue s.toList = .symbol s := by
  rw [LispCore.atomValue, if_neg fun h' => h.ne_nil (String.toList_inj.1 h'),
    if_neg fun h' => h.ne_true (String.toList_inj.1 h'),
    if_neg fun h' => h.ne_false (String.toList_inj.1 h'), h.not_number]
  simp

theorem readsAs_number (x : Double) (n : ℕ) : ReadsAs x.text (.number x) n := by
  have hread : Double.ofLiteral? x.text.toList = some x := by
    by_cases hx : x = .nan
    · subst hx
      decide +kernel
    · exact Double.ofLiteral?_text hx
  rw [← atomValue_of_literal hread]
  refine readsAs_atom ?_ fun c hc => (Double.numberChar_of_mem_text hc).spec.2.2
  intro hnil
  have hempty : Double.ofLiteral? [] = none := by decide +kernel
  rw [hnil, hempty] at hread
  cases hread

theorem readsAs_symbol {s : String} (h : IsName s) (n : ℕ) : ReadsAs s (.symbol s) n := by
  rw [← h.atomValue]
  exact readsAs_atom (fun h' => h.ne_empty (String.toList_inj.1 h'))
    fun c hc => isAtomChar_iff.2 (h.chars c hc)

theorem readsAs_nil (n : ℕ) : ReadsAs "nil" .nil n := by
  rw [← atomValue_nil]
  exact readsAs_atom (by decide +kernel) (by simp; decide)

theorem readsAs_boolean (b : Bool) (n : ℕ) :
    ReadsAs (if b then "true" else "false") (.boolean b) n := by
  rw [← atomValue_boolean]
  cases b with
  | false => exact readsAs_atom (by decide +kernel) (by simp; decide)
  | true => exact readsAs_atom (by decide +kernel) (by simp; decide)

/-! ## Values -/

namespace Value

/-- The values that read back: no `nan`, function or foreign object anywhere in them, no
    integer that is not the exact value of a double, and only symbols that have names. -/
inductive Readable : Value → Prop
  | number {x} : x ≠ .nan → Readable (number x)
  | integer {n} : (∃ x : Double, x.equalInt n = true) → Readable (integer n)
  | string (s) : Readable (string s)
  | symbol {s} : IsName s → Readable (symbol s)
  | boolean (b) : Readable (boolean b)
  | nil : Readable nil
  | list {xs} : (∀ x ∈ xs, Readable x) → Readable (list xs)

mutual

/-- The value with the double that it stands for in the place of every integer. -/
def canonical : Value → Value
  | integer n => number (.ofInt n)
  | list xs => list (canonicalAll xs)
  | v => v

/-- The values with doubles in the place of integers. -/
def canonicalAll : List Value → List Value
  | [] => []
  | x :: xs => x.canonical :: canonicalAll xs

end

theorem canonicalAll_eq (xs : List Value) : canonicalAll xs = xs.map canonical := by
  induction xs with
  | nil => rfl
  | cons x xs ih => rw [canonicalAll, ih, List.map_cons]

theorem Readable.alike {v : Value} (h : v.Readable) : v.Alike v.canonical := by
  induction h with
  | @number x hx =>
    obtain ⟨a, ha⟩ := Option.isSome_iff_exists.1 (Double.value?_isSome.2 hx)
    exact .atoms (sameContent_numbers.2 (Double.equal_iff.2 ⟨a, ha, ha⟩))
  | @integer n hn =>
    obtain ⟨x, hx⟩ := hn
    obtain ⟨hsome, hexact⟩ := Double.ofInt?_of_equalInt hx
    have halien : ¬ (Value.integer n).Alien := by simp [Alien, hsome]
    exact .atoms (sameContent_comm.1 ((sameContent_integer_right halien).2 hexact))
  | string s => exact .atoms (sameContent_string.2 rfl)
  | symbol _ => exact .atoms (sameContent_symbol.2 rfl)
  | boolean b => exact .atoms (sameContent_boolean.2 rfl)
  | nil => exact .atoms ⟨.nothing, rfl, rfl⟩
  | @list xs _ ih =>
    rw [canonical, canonicalAll_eq]
    refine .lists (by rw [List.length_map]) ?_
    intro i x y hxy
    obtain ⟨hx, hy⟩ := hxy
    rw [List.getElem?_map, hx] at hy
    cases hy
    exact ih x (List.mem_of_getElem? hx)

/-- The values whose text the reader understands, if perhaps as others: `nan` is one of
    them, and so are all integers that are numbers. -/
inductive Legible : Value → Prop
  | number (x) : Legible (number x)
  | integer {n} : Double.ofInt? n = some (.ofInt n) → Legible (integer n)
  | string (s) : Legible (string s)
  | symbol {s} : IsName s → Legible (symbol s)
  | boolean (b) : Legible (boolean b)
  | nil : Legible nil
  | list {xs} : (∀ x ∈ xs, Legible x) → Legible (list xs)

theorem Readable.legible {v : Value} (h : v.Readable) : v.Legible := by
  induction h with
  | number _ => exact .number _
  | integer hn =>
    obtain ⟨x, hx⟩ := hn
    exact .integer (Double.ofInt?_of_equalInt hx).1
  | string s => exact .string s
  | symbol hname => exact .symbol hname
  | boolean b => exact .boolean b
  | nil => exact .nil
  | list _ ih => exact .list ih

theorem renderAll_readsAs {limit depth n : ℕ} {xs : List Value}
    (h : ∀ x ∈ xs, ∃ t, x.render .readable limit depth = .ok t ∧ ReadsAs t x.canonical n) :
    ∃ ts, renderAll .readable limit depth xs = .ok ts ∧
      List.Forall₂ (fun t v => ReadsAs t v n) ts (xs.map canonical) := by
  induction xs with
  | nil => exact ⟨[], rfl, .nil⟩
  | cons x xs ih =>
    obtain ⟨t, ht, hread⟩ := h x List.mem_cons_self
    obtain ⟨ts, hts, hreads⟩ := ih fun y hy => h y (List.mem_cons_of_mem x hy)
    refine ⟨t :: ts, ?_, .cons hread hreads⟩
    rw [renderAll, ht, hts]
    rfl

/-- **The text of a legible value is read as its canonical value.** -/
theorem Legible.render_readsAs {limit : ℕ} {v : Value} (h : v.Legible) :
    ∀ depth n, depth ≤ limit → depth + n ≤ stackLevels → v.Within (limit - depth) → v.Nested n →
      ∃ t, v.render .readable limit depth = .ok t ∧ ReadsAs t v.canonical n := by
  have hguard {depth n : ℕ} (hd : depth ≤ limit) (hs : depth + n ≤ stackLevels) :
      depthError? .rendering limit depth = none := depthError?_of_le hd (by omega)
  induction h with
  | number x =>
    intro depth n hd hs _ _
    exact ⟨x.text, by unfold render; rw [hguard hd hs]; rfl, readsAs_number x n⟩
  | @integer m hm =>
    intro depth n hd hs _ _
    refine ⟨(Double.ofInt m).text, ?_, readsAs_number _ n⟩
    unfold render
    rw [hguard hd hs]
    dsimp only
    rw [widen_of_some hm]
    rfl
  | string s =>
    intro depth n hd hs _ _
    exact ⟨escapeString s, by unfold render; rw [hguard hd hs], readsAs_string s n⟩
  | @symbol s hname =>
    intro depth n hd hs _ _
    exact ⟨s, by unfold render; rw [hguard hd hs], readsAs_symbol hname n⟩
  | boolean b =>
    intro depth n hd hs _ _
    exact ⟨if b then "true" else "false", by unfold render; rw [hguard hd hs],
      readsAs_boolean b n⟩
  | nil =>
    intro depth n hd hs _ _
    exact ⟨"nil", by unfold render; rw [hguard hd hs], readsAs_nil n⟩
  | @list xs _ ih =>
    intro depth n hd hs hw hn
    obtain ⟨hpos, hnx⟩ := nested_list.1 hn
    obtain ⟨k, rfl⟩ : ∃ k, n = k + 1 := ⟨n - 1, by omega⟩
    obtain ⟨ts, hts, hreads⟩ := renderAll_readsAs (n := k) fun x hx => by
      obtain ⟨hlt, hwx⟩ := within_list.1 hw x hx
      rw [Nat.sub_sub] at hwx
      exact ih x hx (depth + 1) k (Nat.lt_of_sub_pos hlt) (by omega) hwx (hnx x hx)
    refine ⟨"(" ++ joinWith " " ts ++ ")", ?_, ?_⟩
    · unfold render
      rw [hguard hd hs]
      dsimp only
      rw [hts]
      rfl
    · rw [canonical, canonicalAll_eq]
      exact readsAs_list hreads

/-- The text of a readable value is read as its canonical value. -/
theorem render_readsAs {limit : ℕ} {v : Value} (h : v.Readable) : ∀ depth n, depth ≤ limit →
    depth + n ≤ stackLevels → v.Within (limit - depth) → v.Nested n →
    ∃ t, v.render .readable limit depth = .ok t ∧ ReadsAs t v.canonical n :=
  h.legible.render_readsAs

end Value

/-! ## The round trip -/

namespace World

/-- **What `pr-str` writes, `read-string` reads back** as a value that is equal to the
    one printed and the same but for integers, which have become doubles. -/
theorem print_read (world : World) (hreader : world.scope.reader = .grammar) {v : Value}
    (hv : v.Readable) (hlimit : v.Within world.depthLimit) (hstack : v.Nested stackLevels) :
    ∃ t : String, world.callByName "pr-str" [v] = .quiet (.ok (.string t)) ∧
      world.callByName "read-string" [.string t] =
        ⟨.ok v.canonical, "", [.delegating t.length]⟩ ∧
      world.callByName "=" [v.canonical, v] = .quiet (.ok (.boolean true)) := by
  obtain ⟨t, ht, hread⟩ := Value.render_readsAs hv 0 stackLevels (Nat.zero_le _) (by simp)
    hlimit hstack
  have hfirst : readFirst t = .ok v.canonical := by
    have := hread [] [] ends_nil (by simp)
    rwa [List.append_nil] at this
  have halike := hv.alike
  have hequal : v.canonical.equal world.depthLimit v = .ok true :=
    Value.equalAt_of_alike halike.symm 0 (Nat.zero_le _) (Nat.zero_le _) (halike.within hlimit)
      (halike.within hstack.within)
  exact ⟨t, world.callByName_prStr ht, world.callByName_readString hreader hfirst,
    world.callByName_equals hequal⟩

/-- A list with something of every sort in it. -/
def everySort : Value :=
  .list [.integer 3, .number (.ofBits 0x8000000000000000), .number (.ofBits 0x7ff0000000000000),
    .string "a\"\\\n", .symbol "set!", .list [.nil, .boolean true, .list []]]

theorem print_read_everySort :
    (initial {} .empty .grammar).scope.reader = .grammar ∧ everySort.Readable ∧
      everySort.Within (initial {} .empty .grammar).depthLimit ∧ everySort.Nested stackLevels ∧
      ∃ t : String,
        (initial {} .empty .grammar).callByName "pr-str" [everySort] =
          .quiet (.ok (.string t)) ∧
        (initial {} .empty .grammar).callByName "read-string" [.string t] =
          ⟨.ok everySort.canonical, "", [.delegating t.length]⟩ ∧
        (initial {} .empty .grammar).callByName "=" [everySort.canonical, everySort] =
          .quiet (.ok (.boolean true)) := by
  have hname : IsName "set!" :=
    ⟨by decide, by simp; decide, by decide, by decide, by decide, by decide +kernel⟩
  have hreadable : everySort.Readable := by
    refine .list ?_
    simp only [List.forall_mem_cons]
    refine ⟨.integer ⟨.ofBits 0x4008000000000000, by decide +kernel⟩, .number (by decide),
      .number (by decide), .string _, .symbol hname, .list ?_, by simp⟩
    simp only [List.forall_mem_cons]
    exact ⟨.nil, .boolean true, .list (by simp), by simp⟩
  have hnested : everySort.Nested 3 := by
    simp [everySort, Value.nested_list, Value.nested_of_not_list]
  have hlimit : everySort.Within (initial {} .empty .grammar).depthLimit :=
    hnested.within.mono (by decide)
  have hstack : everySort.Nested stackLevels := by
    simp [everySort, Value.nested_list, Value.nested_of_not_list]
    decide
  exact ⟨rfl, hreadable, hlimit, hstack, print_read _ rfl hreadable hlimit hstack⟩

end World

end LispCore

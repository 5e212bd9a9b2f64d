/-
  LispCore — what was read is printed as text that reads back.

  * `Derives.legible`: what the reader of the grammar answers is legible, and has no
    integers in it;
  * `Value.within_of_render`: what has a text nests no deeper than the limit;
  * `nested_of_readFirst`: what was read nests no deeper than the stack allows;
  * `World.read_print_read`: the text of what was read is read as the same value, so that
    it is a normal form of the text that was read first.
-/
import LispCore.Proofs.Acceptance
import LispCore.Proofs.DepthGuard
import LispCore.Proofs.RoundTrip

namespace LispCore

/-! ## What the reader answers -/

theorem AtomMeans.legible {s : List Char} {v : Value} (hne : s ≠ [])
    (hs : ∀ c ∈ s, isAtomChar c) (h : AtomMeans s v) : v.Legible := by
  cases h with
  | nil => exact .nil
  | boolean b => exact .boolean b
  | number h => exact .number _
  | symbol hnil htrue hfalse hnumber =>
    have hlist : (String.ofList s).toList = s := String.toList_ofList
    refine .symbol ⟨?_, ?_, ?_, ?_, ?_, ?_⟩
    · intro h
      rw [h] at hlist
      exact hne hlist.symm
    · rw [hlist]
      exact fun c hc => isAtomChar_iff.1 (hs c hc)
    · intro h
      exact hnil (hlist.symm.trans (congrArg String.toList h))
    · intro h
      exact htrue (hlist.symm.trans (congrArg String.toList h))
    · intro h
      exact hfalse (hlist.symm.trans (congrArg String.toList h))
    · rw [hlist]
      exact hnumber

theorem AtomMeans.canonical_eq {s : List Char} {v : Value} (h : AtomMeans s v) :
    v.canonical = v := by
  cases h <;> rfl

mutual

/-- **What a text derives is legible.** -/
theorem Derives.legible {s r v} : Derives s v r → v.Legible
  | .string _ => .string _
  | .atom hne hs _ hv => hv.legible hne hs
  | .list hall => .list hall.legible

theorem DerivesAll.legible {s r vs} : DerivesAll s vs r → ∀ x ∈ vs, x.Legible
  | .close _ => by simp
  | .element _ h hall => List.forall_mem_cons.2 ⟨h.legible, hall.legible⟩

end

mutual

/-- No text derives an integer. -/
theorem Derives.canonical_eq {s r v} : Derives s v r → v.canonical = v
  | .string _ => rfl
  | .atom _ _ _ hv => hv.canonical_eq
  | .list hall => congrArg Value.list hall.canonicalAll_eq

theorem DerivesAll.canonicalAll_eq {s r vs} : DerivesAll s vs r → Value.canonicalAll vs = vs
  | .close _ => rfl
  | .element _ h hall => by rw [Value.canonicalAll, h.canonical_eq, hall.canonicalAll_eq]

end

/-- What is read is derived by a text that fits. -/
theorem exists_derives_of_readFirst {s : String} {v : Value} (h : readFirst s = .ok v) :
    Fits s.toList ∧ ∃ t r, AfterBlanks s.toList t ∧ Derives t v r := by
  have hfits : Fits s.toList := by
    rw [fits_iff]
    intro hread
    rw [readFirst, hread] at h
    cases h
  cases (readOpen_eq_iff hfits).1 h with
  | value hs h => exact ⟨hfits, _, _, hs, h⟩

/-- What was read nests no deeper than the stack allows. -/
theorem nested_of_readFirst {s : String} {v : Value} (h : readFirst s = .ok v) :
    v.Nested stackLevels := by
  obtain ⟨hfits, t, r, hs, h⟩ := exists_derives_of_readFirst h
  rcases h.nested_or_opens stackLevels with hnested | ⟨r', rfl, ho⟩
  · exact hnested
  · exact absurd ho (hfits r' hs)

namespace Value

/-! ## What has a text -/

theorem exists_render_of_renderAll {mode : Mode} {limit depth : ℕ} {xs : List Value}
    {ts : List String} (h : renderAll mode limit depth xs = .ok ts) :
    ∀ x ∈ xs, ∃ t, x.render mode limit depth = .ok t := by
  rcases renderAll_cases mode limit depth xs with ⟨-, hall⟩ | ⟨_, _, e, -, -, he, -⟩
  · exact hall
  · rw [h] at he
    cases he

/-- The elements of what has a text have texts. -/
theorem exists_render_of_mem {mode : Mode} {limit depth : ℕ} {xs : List Value} {t : String}
    (h : (list xs).render mode limit depth = .ok t) :
    ∀ x ∈ xs, ∃ t, x.render mode limit (depth + 1) = .ok t := by
  unfold render at h
  split at h
  · cases h
  · dsimp only at h
    cases hall : renderAll mode limit (depth + 1) xs with
    | ok ts => exact exists_render_of_renderAll hall
    | error e => rw [hall] at h; cases h

/-- **What has a text nests no deeper than the limit.** -/
theorem within_of_render {mode : Mode} {limit : ℕ} (v : Value) : ∀ {depth t},
    v.render mode limit depth = .ok t → depth ≤ limit ∧ v.Within (limit - depth) := by
  have hguard {v : Value} {depth : ℕ} {t} (h : v.render mode limit depth = .ok t) :
      depth ≤ limit := by
    by_contra hd
    rw [render_tooDeep (Nat.lt_of_not_le hd)] at h
    cases h
  induction v using Value.induction with
  | atom v hatom =>
    intro depth t h
    exact ⟨hguard h, within_of_not_list hatom _⟩
  | node xs ih =>
    intro depth t h
    refine ⟨hguard h, within_list.2 fun x hx => ?_⟩
    obtain ⟨t', ht'⟩ := exists_render_of_mem h x hx
    obtain ⟨hd, hw⟩ := ih x hx ht'
    rw [Nat.sub_sub]
    exact ⟨Nat.sub_pos_of_lt hd, hw⟩

end Value

/-! ## Printing and reading again -/

/-- The text of what was read is read as what was read. -/
theorem readFirst_text {limit : ℕ} {s t : String} {v : Value} (hread : readFirst s = .ok v)
    (htext : v.text .readable limit = .ok t) : readFirst t = .ok v := by
  obtain ⟨-, s', r, -, h⟩ := exists_derives_of_readFirst hread
  obtain ⟨t', ht', hreads⟩ := h.legible.render_readsAs 0 stackLevels (Nat.zero_le _) (by simp)
    (Value.within_of_render v htext).2 (nested_of_readFirst hread)
  rw [Value.text, ht'] at htext
  cases htext
  have := hreads [] [] ends_nil (by simp)
  rwa [List.append_nil, h.canonical_eq] at this

namespace World

/-- What `pr-str` writes of what `read-string` reads. -/
def reprint (world : World) (s : String) : Except Error Value := do
  let v ← (world.callByName "read-string" [.string s]).result
  (world.callByName "pr-str" [v]).result

theorem result_prStr_eq_ok {world : World} {v : Value} {t : String} :
    (world.callByName "pr-str" [v]).result = .ok (.string t) ↔
      v.text .readable world.depthLimit = .ok t := by
  rw [world.callByName_prStr_eq, Observed.quiet]
  cases v.text .readable world.depthLimit <;> simp [Except.map]

/-- **What was read prints as text that reads back**: `read-string` answers the same value
    again, and the text is a normal form. -/
theorem read_print_read {world : World} (hreader : world.scope.reader = .grammar)
    {s t : String} {v : Value}
    (hread : (world.callByName "read-string" [.string s]).result = .ok v)
    (hprint : (world.callByName "pr-str" [v]).result = .ok (.string t)) :
    (world.callByName "read-string" [.string t]).result = .ok v ∧
      world.reprint s = .ok (.string t) ∧ world.reprint t = .ok (.string t) := by
  have hagain : (world.callByName "read-string" [.string t]).result = .ok v :=
    (result_readString_eq_ok hreader).2 <|
      readFirst_text ((result_readString_eq_ok hreader).1 hread) (result_prStr_eq_ok.1 hprint)
  refine ⟨hagain, ?_, ?_⟩
  · rw [reprint, hread]
    exact hprint
  · rw [reprint, hagain]
    exact hprint

/-- Tokens without blanks between them, an escape without need, and `nan`. -/
theorem read_print_read_glued :
    ((initial {} .empty .grammar).scope.reader = .grammar ∧
      ((initial {} .empty .grammar).callByName "read-string"
        [.string "(x\"a\\q\"nan)"]).result =
          .ok (.list [.symbol "x", .string "aq", .number .nan]) ∧
      ((initial {} .empty .grammar).callByName "pr-str"
        [.list [.symbol "x", .string "aq", .number .nan]]).result =
          .ok (.string "(x \"aq\" nan)")) ∧
    (initial {} .empty .grammar).reprint "(x \"aq\" nan)" = .ok (.string "(x \"aq\" nan)") := by
  have hread : ((initial {} .empty .grammar).callByName "read-string"
      [.string "(x\"a\\q\"nan)"]).result =
        .ok (.list [.symbol "x", .string "aq", .number .nan]) := by
    have hx : atomValue ['x'] = .symbol "x" := by
      rw [atomValue, if_neg (by decide +kernel), if_neg (by decide +kernel),
        if_neg (by decide +kernel), show Double.ofLiteral? ['x'] = none by decide +kernel]
    have hnan : atomValue ['n', 'a', 'n'] = .number .nan :=
      atomValue_of_literal (by decide +kernel)
    rw [result_readString_eq_ok rfl,
      readOpen_openList (r := "x\"a\\q\"nan)".toList) (by decide +kernel),
      if_pos (by decide),
      readOpen_atom (t := ['x']) (r := "\"a\\q\"nan)".toList) (by decide +kernel), resume,
      readOpen_text (t := ['a', 'q']) (r := "nan)".toList) (by decide +kernel), resume,
      readOpen_atom (t := ['n', 'a', 'n']) (r := [')']) (by decide +kernel), resume,
      readOpen_closeList (r := []) (by decide +kernel), resume, hx, hnan]
    rfl
  have hprint : ((initial {} .empty .grammar).callByName "pr-str"
      [.list [.symbol "x", .string "aq", .number .nan]]).result =
        .ok (.string "(x \"aq\" nan)") := by
    rw [result_prStr_eq_ok]
    rfl
  exact ⟨⟨rfl, hread, hprint⟩, (read_print_read rfl hread hprint).2.2⟩

end World

end LispCore

/-
  LispCore — blank characters.

  * `isBlank`: the 29 characters that separate tokens and are dropped from the
    ends of settings;
  * `strip`: a text without the blanks at its ends.  `strip_spec`, `exists_strip`: the
    text is what is left with blanks around it; `strip_append`: what has no blanks in
    it is left, whatever blanks are around it.
-/
namespace LispCore.Text

/-- Whether a character is blank: the space characters and the line and paragraph
    separators of Unicode, tab to carriage return, the four information
    separators, and next line. -/
def isBlank (c : Char) : Bool :=
  let n := c.toNat
  (0x9 ≤ n && n ≤ 0xd) || (0x1c ≤ n && n ≤ 0x20) || n == 0x85 || n == 0xa0 || n == 0x1680 ||
    (0x2000 ≤ n && n ≤ 0x200a) || n == 0x2028 || n == 0x2029 || n == 0x202f || n == 0x205f ||
    n == 0x3000

/-- A text without the blanks at its ends. -/
def strip (s : List Char) : List Char :=
  ((s.dropWhile isBlank).reverse.dropWhile isBlank).reverse

theorem strip_spec (s : List Char) : ∃ before after, s = before ++ strip s ++ after ∧
    (∀ c ∈ before, isBlank c) ∧ ∀ c ∈ after, isBlank c := by
  have blank (t : List Char) : ∀ c ∈ t.takeWhile isBlank, isBlank c :=
    List.all_eq_true.1 List.all_takeWhile
  refine ⟨s.takeWhile isBlank, ((s.dropWhile isBlank).reverse.takeWhile isBlank).reverse, ?_,
    blank s, fun c hc => blank _ c (List.mem_reverse.1 hc)⟩
  rw [strip, List.append_assoc, ← List.reverse_append, List.takeWhile_append_dropWhile,
    List.reverse_reverse, List.takeWhile_append_dropWhile]

theorem strip_eq_nil_iff {s : List Char} : strip s = [] ↔ ∀ c ∈ s, isBlank c := by
  constructor
  · intro h
    obtain ⟨before, after, hs, hbefore, hafter⟩ := strip_spec s
    rw [h, List.append_nil] at hs
    rw [hs, List.forall_mem_append]
    exact ⟨hbefore, hafter⟩
  · intro h
    have hdrop := (List.dropWhile_append_of_pos h : (s ++ []).dropWhile isBlank = _)
    rw [List.append_nil] at hdrop
    rw [strip, hdrop]
    rfl

/-- A text is its stripped part between blanks. -/
theorem exists_strip (raw : String) : ∃ before after : String,
    raw = before ++ String.ofList (strip raw.toList) ++ after ∧
    (∀ c ∈ before.toList, isBlank c) ∧ ∀ c ∈ after.toList, isBlank c := by
  obtain ⟨before, after, hs, hbefore, hafter⟩ := strip_spec raw.toList
  refine ⟨String.ofList before, String.ofList after, ?_, ?_, ?_⟩
  · rw [← String.ofList_append, ← String.ofList_append, ← hs, String.ofList_toList]
  · rwa [String.toList_ofList]
  · rwa [String.toList_ofList]

/-- What has no blanks in it is what is left between blanks. -/
theorem strip_append {before s after : List Char} (hbefore : ∀ c ∈ before, isBlank c)
    (hs : ∀ c ∈ s, ¬ isBlank c) (hafter : ∀ c ∈ after, isBlank c) :
    strip (before ++ s ++ after) = s := by
  have keeps {t : List Char} (ht : ∀ c ∈ t, ¬ isBlank c) : t.dropWhile isBlank = t := by
    cases t with
    | nil => rfl
    | cons c t => exact List.dropWhile_cons_of_neg (ht c List.mem_cons_self)
  cases s with
  | nil =>
    rw [List.append_nil, strip_eq_nil_iff, List.forall_mem_append]
    exact ⟨hbefore, hafter⟩
  | cons c s =>
    have hafter' : ∀ c ∈ after.reverse, isBlank c := fun c hc => hafter c (List.mem_reverse.1 hc)
    have hs' : ∀ d ∈ (c :: s).reverse, ¬ isBlank d := fun d hd => hs d (List.mem_reverse.1 hd)
    rw [strip, List.append_assoc, List.dropWhile_append_of_pos hbefore, List.cons_append,
      List.dropWhile_cons_of_neg (hs c List.mem_cons_self), ← List.cons_append,
      List.reverse_append, List.dropWhile_append_of_pos hafter', keeps hs', List.reverse_reverse]

end LispCore.Text

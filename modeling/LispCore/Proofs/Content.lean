/-
  LispCore — what values hold, and one step of the comparison.

  * `Value.Alien`: foreign objects, and integers too large for a number;
  * `Value.content?`: what an atom holds; two atoms are equal if they hold the
    same (`Value.SameContent`), numbers by their exact values;
  * `Value.equalAt_atoms`, `Value.equalAt_lists`, …: what `Value.equalAt` does at
    one pair of values, guard by guard;
  * `Value.Resembles`: what makes two values compare with others alike, unless both are
    compared with lists as lists;
  * `equalAllAt_eq_true_iff`, `equalAllAt_cases`: the answer for two sequences of
    one length is that of the first pair that is not equal.
-/
import LispCore.Proofs.ExactValue
import LispCore.Value.Equality

namespace LispCore

/-- What an atom holds. -/
inductive Content where
  /-- A number, by its exact value. -/
  | number (a : Exact)
  /-- The text of a string. -/
  | text (s : String)
  /-- The name of a symbol. -/
  | name (s : String)
  /-- A truth value. -/
  | truth (b : Bool)
  /-- Nil holds nothing that could differ. -/
  | nothing
  deriving DecidableEq

/-- The variant of the atoms that hold a content. -/
def Content.variant : Content → Variant
  | .number _ => .number
  | .text _ => .string
  | .name _ => .symbol
  | .truth _ => .boolean
  | .nothing => .nil

namespace Value

/-- What is no value: a foreign object, or an integer too large for a number. -/
def Alien : Value → Prop
  | foreign _ => True
  | integer n => Double.ofInt? n = none
  | _ => False

instance : DecidablePred Alien := fun v => by
  cases v <;> unfold Alien <;> infer_instance

/-- What an atom holds; `nan`, lists, functions and what is no value hold nothing. -/
def content? : Value → Option Content
  | number x => x.value?.map .number
  | integer n => if Double.ofInt? n = none then none else some (.number (Double.exactOfInt n))
  | string s => some (.text s)
  | symbol s => some (.name s)
  | boolean b => some (.truth b)
  | nil => some .nothing
  | list _ | function _ | foreign _ => none

theorem content?_integer {n : Int} (h : ¬ (integer n).Alien) :
    (integer n).content? = some (.number (Double.exactOfInt n)) := if_neg h

/-- Two atoms hold the same. -/
def SameContent (a b : Value) : Prop := ∃ c, a.content? = some c ∧ b.content? = some c

theorem sameContent_comm {a b : Value} : a.SameContent b ↔ b.SameContent a :=
  ⟨fun ⟨c, ha, hb⟩ => ⟨c, hb, ha⟩, fun ⟨c, hb, ha⟩ => ⟨c, ha, hb⟩⟩

theorem SameContent.trans {a b c : Value} : a.SameContent b → b.SameContent c → a.SameContent c :=
  fun ⟨d, ha, hb⟩ ⟨e, hb', hc⟩ => ⟨d, ha, by rw [hc, ← hb', hb]⟩

theorem sameContent_string {s t : String} : (string s).SameContent (string t) ↔ s = t := by
  simp [SameContent, content?, eq_comm]

theorem sameContent_symbol {s t : String} : (symbol s).SameContent (symbol t) ↔ s = t := by
  simp [SameContent, content?, eq_comm]

theorem sameContent_boolean {s t : Bool} : (boolean s).SameContent (boolean t) ↔ s = t := by
  simp [SameContent, content?, eq_comm]

theorem sameContent_numbers {x y : Double} :
    (number x).SameContent (number y) ↔ x.equal y = true := by
  simp [SameContent, content?, Double.equal_iff]

theorem sameContent_integer_right {x : Double} {n : Int} (h : ¬ (integer n).Alien) :
    (number x).SameContent (integer n) ↔ x.equalInt n = true := by
  rw [SameContent, content?_integer h, Double.equalInt_iff]
  simp [content?]

theorem sameContent_integers {m n : Int} (hm : ¬ (integer m).Alien) (hn : ¬ (integer n).Alien) :
    (integer m).SameContent (integer n) ↔ m = n := by
  rw [SameContent, content?_integer hm, content?_integer hn]
  simp [Double.exactOfInt_inj, eq_comm]

theorem widen_of_none {n : Int} (h : Double.ofInt? n = none) :
    widen n = .error (.oversized (bitLength n)) := by
  rw [widen, h]

theorem widen_of_some {n : Int} {x : Double} (h : Double.ofInt? n = some x) :
    widen n = .ok x := by
  rw [widen, h]

/-- Aliens are what has no variant. -/
theorem variant_isOk_iff {v : Value} : (∃ w, v.variant = .ok w) ↔ ¬ v.Alien := by
  cases v with
  | integer n =>
    cases h : Double.ofInt? n with
    | none => simp [variant, Alien, widen_of_none h, h, Except.map]
    | some x => simp [variant, Alien, widen_of_some h, h, Except.map]
  | _ => simp [variant, Alien]

/-- The constructors of a variant. -/
def IsOf (v : Value) : Variant → Prop
  | .number => (∃ x, v = number x) ∨ ∃ n, v = integer n
  | .string => ∃ s, v = string s
  | .symbol => ∃ s, v = symbol s
  | .boolean => ∃ b, v = boolean b
  | .nil => v = nil
  | .list => ∃ xs, v = list xs
  | .function => ∃ f, v = function f

theorem isOf_of_variant {v : Value} {w : Variant} (h : v.variant = .ok w) : v.IsOf w := by
  cases v with
  | integer n =>
    rw [variant] at h
    cases hn : widen n with
    | error _ => rw [hn] at h; cases h
    | ok x => rw [hn] at h; cases h; exact Or.inr ⟨n, rfl⟩
  | number x => cases h; exact Or.inl ⟨x, rfl⟩
  | foreign _ => cases h
  | nil => cases h; rfl
  | _ => cases h; exact ⟨_, rfl⟩

theorem variant_of_content? {v : Value} {c : Content} (h : v.content? = some c) :
    v.variant = .ok c.variant := by
  cases v with
  | number x =>
    obtain ⟨a, -, rfl⟩ := Option.map_eq_some_iff.1 h
    rfl
  | integer n =>
    rw [content?] at h
    cases hn : Double.ofInt? n with
    | none => rw [if_pos hn] at h; cases h
    | some x =>
      rw [if_neg (by simp [hn])] at h; cases h
      rw [variant, widen_of_some hn]; rfl
  | list _ | function _ | foreign _ => cases h
  | _ => cases h; rfl

theorem comparable_of_alien {v : Value} (h : v.Alien) :
    v.comparable = .error (.incomparable v.typeName) := by
  cases v with
  | integer n => simp [comparable, variant, widen_of_none h, Except.map, Except.mapError]
  | foreign t => rfl
  | _ => exact absurd h not_false

theorem comparable_of_not_alien {v : Value} (h : ¬ v.Alien) : ∃ w, v.comparable = .ok w := by
  obtain ⟨w, hw⟩ := variant_isOk_iff.2 h
  exact ⟨w, by rw [comparable, hw]; rfl⟩

theorem comparable_integer {n : Int} (h : ¬ (integer n).Alien) :
    (integer n).comparable = .ok .number := by
  obtain ⟨x, hx⟩ := Option.ne_none_iff_exists'.1 h
  rw [comparable, variant, widen_of_some hx]
  rfl

/-! ## One step of the comparison -/

section
variable {limit depth : Nat} {a b : Value}

theorem equalAt_of_depthError? {e : Error} (h : depthError? .comparing limit depth = some e) :
    a.equalAt limit depth b = .error e := by
  unfold equalAt; rw [h]

/-- Nothing else is looked at where the depth does not allow it. -/
theorem equalAt_eq_of_not_le (h : ¬ (depth ≤ limit ∧ depth ≤ stackLevels)) (a' b' : Value) :
    a.equalAt limit depth b = a'.equalAt limit depth b' := by
  obtain ⟨e, he, -⟩ := exists_depthError? .comparing h
  rw [equalAt_of_depthError? he, equalAt_of_depthError? he]

theorem equalAt_tooDeep (h : limit < depth) :
    a.equalAt limit depth b = .error (.tooDeep .comparing limit) :=
  equalAt_of_depthError? (depthError?_of_lt h)

variable (hd : depth ≤ limit) (hs : depth ≤ stackLevels)
include hd hs

theorem equalAt_alien_left (ha : a.Alien) :
    a.equalAt limit depth b = .error (.incomparable a.typeName) := by
  unfold equalAt; rw [depthError?_of_le hd hs, comparable_of_alien ha]

theorem equalAt_alien_right (ha : ¬ a.Alien) (hb : b.Alien) :
    a.equalAt limit depth b = .error (.incomparable b.typeName) := by
  obtain ⟨v, hv⟩ := comparable_of_not_alien ha
  unfold equalAt; rw [depthError?_of_le hd hs, hv, comparable_of_alien hb]

theorem equalAt_lists (xs ys : List Value) :
    (list xs).equalAt limit depth (list ys) =
      if xs.length = ys.length then equalAllAt limit (depth + 1) xs ys else .ok false := by
  unfold equalAt; rw [depthError?_of_le hd hs]; rfl

/-- **Values that are not both lists are equal if they hold the same.** -/
theorem equalAt_atoms (ha : ¬ a.Alien) (hb : ¬ b.Alien)
    (hab : ∀ xs ys, a = list xs → b ≠ list ys) :
    ∃ r, a.equalAt limit depth b = .ok r ∧ (r = true ↔ a.SameContent b) := by
  obtain ⟨v, hv⟩ := comparable_of_not_alien ha
  obtain ⟨w, hw⟩ := comparable_of_not_alien hb
  unfold equalAt
  rw [depthError?_of_le hd hs, hv, hw]
  dsimp only
  split
  · exact ⟨_, rfl, by simp [SameContent, content?]⟩
  · exact ⟨_, rfl, sameContent_numbers.symm⟩
  · exact ⟨_, rfl, (sameContent_integer_right hb).symm⟩
  · exact ⟨_, rfl, (sameContent_comm.trans (sameContent_integer_right ha)).symm⟩
  · exact ⟨_, rfl, beq_iff_eq.trans (sameContent_integers ha hb).symm⟩
  · exact ⟨_, rfl, beq_iff_eq.trans sameContent_string.symm⟩
  · exact ⟨_, rfl, beq_iff_eq.trans sameContent_symbol.symm⟩
  · exact ⟨_, rfl, beq_iff_eq.trans sameContent_boolean.symm⟩
  · exact absurd rfl (hab _ _ rfl)
  · -- no rule applies, so the two sides are of different variants
    refine ⟨_, rfl, ?_⟩
    simp only [Bool.false_eq_true, false_iff]
    rintro ⟨c, hca, hcb⟩
    have ha' := isOf_of_variant (variant_of_content? hca)
    have hb' := isOf_of_variant (variant_of_content? hcb)
    cases c <;> simp only [Content.variant, IsOf] at ha' hb'
    · rcases ha' with ⟨x, rfl⟩ | ⟨m, rfl⟩ <;> rcases hb' with ⟨y, rfl⟩ | ⟨n, rfl⟩ <;> simp_all
    · obtain ⟨s, rfl⟩ := ha'; obtain ⟨t, rfl⟩ := hb'; simp_all
    · obtain ⟨s, rfl⟩ := ha'; obtain ⟨t, rfl⟩ := hb'; simp_all
    · obtain ⟨s, rfl⟩ := ha'; obtain ⟨t, rfl⟩ := hb'; simp_all
    · subst ha' hb'; simp_all

end

/-- What a value is compared by, but for its elements, is the same: two values that are
    no aliens and hold the same, or one and the same value. -/
structure Resembles (a b : Value) : Prop where
  eq_of_alien : a.Alien ∨ b.Alien → a = b
  content? : a.content? = b.content?

namespace Resembles

variable {a b a' b' : Value}

theorem refl (a : Value) : a.Resembles a := ⟨fun _ => rfl, rfl⟩

theorem alien_iff (h : a.Resembles a') : a.Alien ↔ a'.Alien :=
  ⟨fun ha => h.eq_of_alien (Or.inl ha) ▸ ha, fun ha => h.eq_of_alien (Or.inr ha) ▸ ha⟩

theorem sameContent_iff (ha : a.Resembles a') (hb : b.Resembles b') :
    a.SameContent b ↔ a'.SameContent b' := by
  rw [SameContent, SameContent, ha.content?, hb.content?]

/-- **Values that are not both lists compare as those that they resemble**, wherever they
    lie. -/
theorem equalAt_eq (ha : a.Resembles a') (hb : b.Resembles b')
    (hab : ∀ xs ys, a = list xs → b ≠ list ys) (hab' : ∀ xs ys, a' = list xs → b' ≠ list ys)
    {limit limit' depth depth' : Nat} (hd : depth ≤ limit) (hs : depth ≤ stackLevels)
    (hd' : depth' ≤ limit') (hs' : depth' ≤ stackLevels) :
    a.equalAt limit depth b = a'.equalAt limit' depth' b' := by
  by_cases hax : a.Alien
  · obtain rfl := ha.eq_of_alien (Or.inl hax)
    rw [equalAt_alien_left hd hs hax, equalAt_alien_left hd' hs' hax]
  by_cases hbx : b.Alien
  · obtain rfl := hb.eq_of_alien (Or.inl hbx)
    rw [equalAt_alien_right hd hs hax hbx,
      equalAt_alien_right hd' hs' (mt ha.alien_iff.2 hax) hbx]
  obtain ⟨r, he, hr⟩ := equalAt_atoms hd hs hax hbx hab
  obtain ⟨r', he', hr'⟩ :=
    equalAt_atoms hd' hs' (mt ha.alien_iff.2 hax) (mt hb.alien_iff.2 hbx) hab'
  rw [he, he', Bool.eq_iff_iff.2 (hr.trans ((ha.sameContent_iff hb).trans hr'.symm))]

end Resembles

end Value

/-! ## Sequences -/

section
variable {limit depth : Nat} {x y : Value} {xs ys : List Value}

theorem equalAllAt_of_equal (h : x.equalAt limit depth y = .ok true) :
    equalAllAt limit depth (x :: xs) (y :: ys) = equalAllAt limit depth xs ys := by
  rw [equalAllAt, h]; rfl

theorem equalAllAt_of_not_equal (h : x.equalAt limit depth y ≠ .ok true) :
    equalAllAt limit depth (x :: xs) (y :: ys) = x.equalAt limit depth y := by
  rw [equalAllAt]
  cases hxy : x.equalAt limit depth y with
  | error e => rfl
  | ok r =>
    cases r with
    | false => rfl
    | true => exact absurd hxy h

end

/-- The pairs of elements at an index of two sequences. -/
def PairAt (xs ys : List Value) (i : Nat) (x y : Value) : Prop := xs[i]? = some x ∧ ys[i]? = some y

theorem pairAt_of_left {xs ys : List Value} (h : xs.length = ys.length) {i : Nat} {x : Value}
    (hx : xs[i]? = some x) : ∃ y, PairAt xs ys i x y := by
  have hi : i < ys.length := by rw [← h]; exact (List.getElem?_eq_some_iff.1 hx).1
  exact ⟨ys[i], hx, List.getElem?_eq_getElem hi⟩

theorem pairAt_of_right {xs ys : List Value} (h : xs.length = ys.length) {i : Nat} {y : Value}
    (hy : ys[i]? = some y) : ∃ x, PairAt xs ys i x y := by
  obtain ⟨x, hx, hy'⟩ := pairAt_of_left h.symm hy
  exact ⟨x, hy', hx⟩

/-- **The answer for two sequences of one length is that of the first pair of
    elements that are not equal**, and `true` if there is none. -/
theorem equalAllAt_cases (limit depth : Nat) : ∀ {xs ys : List Value}, xs.length = ys.length →
    (equalAllAt limit depth xs ys = .ok true ∧
      ∀ i x y, PairAt xs ys i x y → x.equalAt limit depth y = .ok true) ∨
    ∃ i x y, PairAt xs ys i x y ∧ equalAllAt limit depth xs ys = x.equalAt limit depth y ∧
      x.equalAt limit depth y ≠ .ok true ∧
      ∀ j < i, ∀ x' y', PairAt xs ys j x' y' → x'.equalAt limit depth y' = .ok true
  | [], [], _ => Or.inl ⟨rfl, by simp [PairAt]⟩
  | x :: xs, y :: ys, h => by
    by_cases hxy : x.equalAt limit depth y = .ok true
    · rw [equalAllAt_of_equal hxy]
      rcases equalAllAt_cases limit depth (Nat.succ.inj h) with
        ⟨hall, hp⟩ | ⟨i, x', y', hp, hall, hne, hlt⟩
      · refine Or.inl ⟨hall, ?_⟩
        intro i x' y' hi
        cases i with
        | zero => obtain ⟨hx, hy⟩ := hi; cases hx; cases hy; exact hxy
        | succ i => exact hp i x' y' hi
      · refine Or.inr ⟨i + 1, x', y', hp, hall, hne, ?_⟩
        intro j hj x'' y'' hj'
        cases j with
        | zero => obtain ⟨hx, hy⟩ := hj'; cases hx; cases hy; exact hxy
        | succ j => exact hlt j (Nat.lt_of_succ_lt_succ hj) x'' y'' hj'
    · exact Or.inr ⟨0, x, y, ⟨rfl, rfl⟩, equalAllAt_of_not_equal hxy, hxy,
        fun j hj => absurd hj (Nat.not_lt_zero j)⟩

theorem equalAllAt_eq_true_iff {limit depth : Nat} {xs ys : List Value}
    (h : xs.length = ys.length) : equalAllAt limit depth xs ys = .ok true ↔
      ∀ i x y, PairAt xs ys i x y → x.equalAt limit depth y = .ok true := by
  rcases equalAllAt_cases limit depth h with ⟨hall, hp⟩ | ⟨i, x, y, hp, hall, hne, -⟩
  · exact iff_of_true hall hp
  · exact iff_of_false (by rw [hall]; exact hne) fun hp' => hne (hp' i x y hp)

end LispCore

/-
  LispCore — what equality means.

  Comparing two values walks down both of them at once.  Said without the walk:

  * `Value.Aligned`: the positions that both values have and that lie, in both,
    inside lists of the same lengths all the way down;
  * `Value.Decides`: an aligned position that settles the answer, and the answer
    that it gives;
  * `Value.Verdict`: the answer of the first such position, a list coming before
    its elements and they from left to right, or `true` if there is none;
  * `Value.verdict_equalAt`: the walk answers the verdict, and no other answer is one
    (`Value.verdict_unique`).
-/
import LispCore.Proofs.Content
import LispCore.Proofs.FirstPosition

namespace LispCore.Value

/-- A position that both values have, inside lists of the same lengths. -/
def Aligned (a b : Layout) (p : Path) : Prop :=
  (a p).isSome ∧ (b p).isSome ∧ ∀ q, q <+: p → q ≠ p →
    ∃ xs ys, a q = some (list xs) ∧ b q = some (list ys) ∧ xs.length = ys.length

/-- What makes two values unequal by themselves, whatever their elements. -/
inductive Differ : Value → Value → Prop
  /-- They are of different variants. -/
  | variants {a b v w} : a.variant = .ok v → b.variant = .ok w → v ≠ w → Differ a b
  /-- They are atoms of one variant that do not hold the same. -/
  | atoms {a b v} : a.variant = .ok v → b.variant = .ok v → v ≠ .list → v ≠ .function →
      ¬ a.SameContent b → Differ a b
  /-- They are functions. -/
  | functions (f g) : Differ (function f) (function g)
  /-- They are lists of different lengths. -/
  | lengths {xs ys} : xs.length ≠ ys.length → Differ (list xs) (list ys)

/-- The answer that a position gives, if it gives one, to the comparison of two
    values that lie inside `depth` lists. -/
inductive Decides (limit depth : Nat) (a b : Layout) (p : Path) : Except Error Bool → Prop
  /-- It lies too deep. -/
  | tooDeep : limit < depth + p.length →
      Decides limit depth a b p (.error (.tooDeep .comparing limit))
  /-- What the left value has there is no value. -/
  | left {x} : depth + p.length ≤ limit → a p = some x → x.Alien →
      Decides limit depth a b p (.error (.incomparable x.typeName))
  /-- What the right value has there is no value. -/
  | right {x y} : depth + p.length ≤ limit → a p = some x → ¬ x.Alien →
      b p = some y → y.Alien → Decides limit depth a b p (.error (.incomparable y.typeName))
  /-- The two differ there. -/
  | differ {x y} : depth + p.length ≤ limit → a p = some x → ¬ x.Alien →
      b p = some y → ¬ y.Alien → x.Differ y → Decides limit depth a b p (.ok false)

/-- The first aligned position that settles the answer.  The order of paths is that
    of a walk which enters a list before its elements. -/
def FirstDecides (limit depth : Nat) (a b : Layout) (p : Path) (o : Except Error Bool) : Prop :=
  Aligned a b p ∧ Decides limit depth a b p o ∧
    ∀ q o', Aligned a b q → Decides limit depth a b q o' → ¬ q < p

/-- The answer of the first position that settles it, and `true` without one. -/
def Verdict (limit depth : Nat) (a b : Layout) (o : Except Error Bool) : Prop :=
  (∃ p, FirstDecides limit depth a b p o) ∨
    (o = .ok true ∧ ∀ p o', Aligned a b p → ¬ Decides limit depth a b p o')

/-! ## Positions of two values -/

theorem aligned_nil (a b : Value) : Aligned a.at? b.at? [] := by
  refine ⟨rfl, rfl, ?_⟩
  intro q hq hne
  exact absurd (List.prefix_nil.1 hq) hne

theorem aligned_cons {a b : Value} {i : Nat} {p : Path} : Aligned a.at? b.at? (i :: p) ↔
    ∃ xs ys x y, a = list xs ∧ b = list ys ∧ xs.length = ys.length ∧ PairAt xs ys i x y ∧
      Aligned x.at? y.at? p := by
  constructor
  · rintro ⟨ha, hb, hq⟩
    obtain ⟨v, hv⟩ := Option.isSome_iff_exists.1 ha
    obtain ⟨w, hw⟩ := Option.isSome_iff_exists.1 hb
    obtain ⟨xs, x, rfl, hx, hxv⟩ := at?_cons_eq_some hv
    obtain ⟨ys, y, rfl, hy, hyw⟩ := at?_cons_eq_some hw
    obtain ⟨xs', ys', hxs, hys, hlen⟩ := hq [] List.nil_prefix (by simp)
    cases hxs; cases hys
    refine ⟨xs, ys, x, y, rfl, rfl, hlen, ⟨hx, hy⟩, by simp [hxv], by simp [hyw], ?_⟩
    intro q hqp hne
    have := hq (i :: q) (List.cons_prefix_cons.2 ⟨rfl, hqp⟩) (by simpa using hne)
    rwa [at?_list_cons hx, at?_list_cons hy] at this
  · rintro ⟨xs, ys, x, y, rfl, rfl, hlen, ⟨hx, hy⟩, ha, hb, hq⟩
    refine ⟨by rwa [at?_list_cons hx], by rwa [at?_list_cons hy], fun q hqp hne => ?_⟩
    cases q with
    | nil => exact ⟨xs, ys, rfl, rfl, hlen⟩
    | cons j q =>
      obtain ⟨rfl, hqp'⟩ := List.cons_prefix_cons.1 hqp
      rw [at?_list_cons hx, at?_list_cons hy]
      exact hq q hqp' (by simpa using hne)

/-- A position below an index decides for two lists what it decides for the elements
    there. -/
theorem decides_cons {limit depth : Nat} {xs ys : List Value} {i : Nat} {x y : Value}
    (h : PairAt xs ys i x y) {p : Path} {o : Except Error Bool} :
    Decides limit depth (list xs).at? (list ys).at? (i :: p) o ↔
      Decides limit (depth + 1) x.at? y.at? p o := by
  have hd : depth + (i :: p).length = depth + 1 + p.length := by
    rw [List.length_cons]; omega
  constructor
  · rintro (h' | ⟨h', hx, hax⟩ | ⟨h', hx, hax, hy, hay⟩ | ⟨h', hx, hax, hy, hay, hxy⟩) <;>
      rw [hd] at h' <;> (try rw [at?_list_cons h.1] at hx) <;> (try rw [at?_list_cons h.2] at hy)
    · exact .tooDeep h'
    · exact .left h' hx hax
    · exact .right h' hx hax hy hay
    · exact .differ h' hx hax hy hay hxy
  · rintro (h' | ⟨h', hx, hax⟩ | ⟨h', hx, hax, hy, hay⟩ | ⟨h', hx, hax, hy, hay, hxy⟩) <;>
      rw [← hd] at h' <;> (try rw [← at?_list_cons h.1] at hx) <;>
      (try rw [← at?_list_cons h.2] at hy)
    · exact .tooDeep h'
    · exact .left h' hx hax
    · exact .right h' hx hax hy hay
    · exact .differ h' hx hax hy hay hxy

/-! ## Values that differ -/

theorem differ_lists {xs ys : List Value} : (list xs).Differ (list ys) ↔ xs.length ≠ ys.length := by
  constructor
  · rintro (⟨hv, hw, hne⟩ | ⟨hv, -, hl, -⟩ | _ | h)
    · cases hv; cases hw; exact absurd rfl hne
    · cases hv; exact absurd rfl hl
    · exact h
  · exact .lengths

/-- Values that are not both lists differ if they do not hold the same. -/
theorem differ_atoms {a b : Value} (ha : ¬ a.Alien) (hb : ¬ b.Alien)
    (hab : ∀ xs ys, a = list xs → b ≠ list ys) : a.Differ b ↔ ¬ a.SameContent b := by
  constructor
  · rintro (⟨hv, hw, hne⟩ | ⟨-, -, -, -, h⟩ | _ | _)
    · rintro ⟨c, hca, hcb⟩
      rw [variant_of_content? hca] at hv
      rw [variant_of_content? hcb] at hw
      cases hv; cases hw; exact hne rfl
    · exact h
    · rintro ⟨c, hc, -⟩; cases hc
    · exact absurd rfl (hab _ _ rfl)
  · intro h
    obtain ⟨v, hv⟩ := variant_isOk_iff.2 ha
    obtain ⟨w, hw⟩ := variant_isOk_iff.2 hb
    by_cases hvw : v = w
    · subst hvw
      have hia := isOf_of_variant hv
      have hib := isOf_of_variant hw
      by_cases hl : v = .list
      · subst hl
        obtain ⟨xs, rfl⟩ := hia; obtain ⟨ys, rfl⟩ := hib
        exact absurd rfl (hab xs ys rfl)
      · by_cases hf : v = .function
        · subst hf
          obtain ⟨f, rfl⟩ := hia; obtain ⟨g, rfl⟩ := hib
          exact .functions f g
        · exact .atoms hv hw hl hf h
    · exact .variants hv hw hvw

/-! ## The first position that decides -/

/-- What an aligned position decides. -/
def Settles (limit depth : Nat) (a b : Layout) (p : Path) (o : Except Error Bool) : Prop :=
  Aligned a b p ∧ Decides limit depth a b p o

theorem settles_cons {limit depth : Nat} {xs ys : List Value} {i : Nat} {x y : Value}
    (h : PairAt xs ys i x y) (hlen : xs.length = ys.length) {p : Path} {o : Except Error Bool} :
    Settles limit depth (list xs).at? (list ys).at? (i :: p) o ↔
      Settles limit (depth + 1) x.at? y.at? p o := by
  refine and_congr ⟨fun hal => ?_, fun hal => ?_⟩ (decides_cons h)
  · obtain ⟨_, _, x', y', hxs, hys, -, h', hal⟩ := aligned_cons.1 hal
    cases hxs; cases hys
    cases h.1.symm.trans h'.1
    cases h.2.symm.trans h'.2
    exact hal
  · exact aligned_cons.2 ⟨xs, ys, x, y, rfl, rfl, hlen, h, hal⟩

section
variable {limit depth : Nat} {a b : Layout}

theorem firstDecides_iff {p : Path} {o : Except Error Bool} :
    FirstDecides limit depth a b p o ↔ IsFirst (Settles limit depth a b) p o := by
  constructor
  · rintro ⟨hal, hdec, hmin⟩
    exact ⟨⟨hal, hdec⟩, fun q o' h => hmin q o' h.1 h.2⟩
  · rintro ⟨⟨hal, hdec⟩, hmin⟩
    exact ⟨hal, hdec, fun q o' hal' hdec' => hmin q o' ⟨hal', hdec'⟩⟩

theorem decides_unique {p : Path} {o o' : Except Error Bool} (h : Decides limit depth a b p o)
    (h' : Decides limit depth a b p o') : o = o' := by
  cases h with
  | tooDeep hd =>
    cases h' with
    | tooDeep => rfl
    | left hd' => exact absurd hd (Nat.not_lt.2 hd')
    | right hd' => exact absurd hd (Nat.not_lt.2 hd')
    | differ hd' => exact absurd hd (Nat.not_lt.2 hd')
  | left hd hx hax =>
    cases h' with
    | tooDeep hd' => exact absurd hd' (Nat.not_lt.2 hd)
    | left _ hx' => rw [Option.some.inj (hx.symm.trans hx')]
    | right _ hx' hax' => exact absurd (Option.some.inj (hx.symm.trans hx') ▸ hax) hax'
    | differ _ hx' hax' => exact absurd (Option.some.inj (hx.symm.trans hx') ▸ hax) hax'
  | right hd hx hax hy hay =>
    cases h' with
    | tooDeep hd' => exact absurd hd' (Nat.not_lt.2 hd)
    | left _ hx' hax' => exact absurd (Option.some.inj (hx'.symm.trans hx) ▸ hax') hax
    | right _ _ _ hy' => rw [Option.some.inj (hy.symm.trans hy')]
    | differ _ _ _ hy' hay' => exact absurd (Option.some.inj (hy.symm.trans hy') ▸ hay) hay'
  | differ hd hx hax hy hay =>
    cases h' with
    | tooDeep hd' => exact absurd hd' (Nat.not_lt.2 hd)
    | left _ hx' hax' => exact absurd (Option.some.inj (hx'.symm.trans hx) ▸ hax') hax
    | right _ _ _ hy' hay' => exact absurd (Option.some.inj (hy'.symm.trans hy) ▸ hay') hay
    | differ => rfl

theorem decides_ne_true {p : Path} : ¬ Decides limit depth a b p (.ok true) := by
  intro h; cases h

/-- There is at most one first position. -/
theorem firstDecides_unique {p q : Path} {o o' : Except Error Bool}
    (h : FirstDecides limit depth a b p o) (h' : FirstDecides limit depth a b q o') : o = o' :=
  ((firstDecides_iff.1 h).unique (firstDecides_iff.1 h') fun _ _ _ hs hs' =>
    decides_unique hs.2 hs'.2).2

/-- There is at most one verdict. -/
theorem verdict_unique {o o' : Except Error Bool} (h : Verdict limit depth a b o)
    (h' : Verdict limit depth a b o') : o = o' := by
  rcases h with ⟨p, h⟩ | ⟨rfl, h⟩ <;> rcases h' with ⟨q, h'⟩ | ⟨rfl, h'⟩
  · exact firstDecides_unique h h'
  · exact absurd h.2.1 (h' p o h.1)
  · exact absurd h'.2.1 (h q o' h'.1)
  · rfl

/-- The verdict is `true` just if nothing decides. -/
theorem verdict_true_iff :
    Verdict limit depth a b (.ok true) ↔ ∀ p o, Aligned a b p → ¬ Decides limit depth a b p o := by
  constructor
  · rintro (⟨p, -, h, -⟩ | ⟨-, h⟩)
    · exact absurd h decides_ne_true
    · exact h
  · intro h
    exact Or.inr ⟨rfl, h⟩

end

/-- What the two values decide by themselves is the verdict, since no position comes
    before theirs. -/
theorem verdict_root {limit depth : Nat} {a b : Value} {o : Except Error Bool}
    (h : Decides limit depth a.at? b.at? [] o) : Verdict limit depth a.at? b.at? o :=
  Or.inl ⟨[], firstDecides_iff.2 (isFirst_nil ⟨aligned_nil a b, h⟩)⟩

/-! ## The walk answers the verdict -/

section
variable {limit depth : Nat} (hd : depth ≤ limit)
include hd

/-- Lists of different lengths. -/
theorem verdict_lengths {xs ys : List Value} (h : xs.length ≠ ys.length) :
    Verdict limit depth (list xs).at? (list ys).at? (.ok false) :=
  verdict_root (.differ hd rfl not_false rfl not_false (.lengths h))

/-- Nothing is decided by two lists of one length themselves. -/
theorem not_decides_lists_nil {xs ys : List Value} (h : xs.length = ys.length)
    {o : Except Error Bool} : ¬ Decides limit depth (list xs).at? (list ys).at? [] o := by
  rintro (h' | ⟨-, hx, hax⟩ | ⟨-, -, -, hy, hay⟩ | ⟨-, hx, -, hy, -, hxy⟩)
  · exact absurd hd (Nat.not_le.2 h')
  · cases hx; exact hax
  · cases hy; exact hay
  · cases hx; cases hy; exact differ_lists.1 hxy h

/-- The verdict on two lists of one length is that of the first two elements that are
    not equal. -/
theorem verdict_lists {xs ys : List Value} (h : xs.length = ys.length)
    (ih : ∀ i x y, PairAt xs ys i x y →
      Verdict limit (depth + 1) x.at? y.at? (x.equalAt limit (depth + 1) y)) :
    Verdict limit depth (list xs).at? (list ys).at? (equalAllAt limit (depth + 1) xs ys) := by
  -- the lists themselves and pairs of equal elements settle nothing
  have hnil (o : Except Error Bool) : ¬ Settles limit depth (list xs).at? (list ys).at? [] o :=
    fun hs => not_decides_lists_nil hd h hs.2
  have hcons {i q o} (heq : ∀ x y, PairAt xs ys i x y → x.equalAt limit (depth + 1) y = .ok true) :
      ¬ Settles limit depth (list xs).at? (list ys).at? (i :: q) o := by
    intro hs
    obtain ⟨_, _, x, y, hxs, hys, -, hxy, -⟩ := aligned_cons.1 hs.1
    cases hxs; cases hys
    have hs' := (settles_cons hxy h).1 hs
    exact verdict_true_iff.1 (heq x y hxy ▸ ih i x y hxy) q o hs'.1 hs'.2
  rcases equalAllAt_cases limit (depth + 1) h with ⟨hall, hp⟩ | ⟨i, x, y, hxy, hall, hne, hlt⟩
  · rw [hall, verdict_true_iff]
    intro p o hal hdec
    cases p with
    | nil => exact hnil o ⟨hal, hdec⟩
    | cons i q => exact hcons (hp i) ⟨hal, hdec⟩
  · rw [hall]
    rcases ih i x y hxy with ⟨p, hfirst⟩ | ⟨htrue, -⟩
    · exact Or.inl ⟨i :: p, firstDecides_iff.2 (isFirst_cons hnil (fun j hj q o => hcons (hlt j hj))
        (fun q o => settles_cons hxy h) (firstDecides_iff.1 hfirst))⟩
    · exact absurd htrue hne

/-- The verdict on values that are not both lists is settled at once. -/
theorem verdict_atoms {a b : Value} (ha : ¬ a.Alien) (hb : ¬ b.Alien)
    (hab : ∀ xs ys, a = list xs → b ≠ list ys) {r : Bool} (hr : r = true ↔ a.SameContent b) :
    Verdict limit depth a.at? b.at? (.ok r) := by
  cases r with
  | false =>
    have : ¬ a.SameContent b := fun h => Bool.noConfusion (hr.2 h)
    exact verdict_root (.differ hd rfl ha rfl hb ((differ_atoms ha hb hab).2 this))
  | true =>
    have hsame := hr.1 rfl
    rw [verdict_true_iff]
    intro p o hal
    cases p with
    | nil =>
      rintro (h' | ⟨-, hx, hax⟩ | ⟨-, -, -, hy, hay⟩ | ⟨-, hx, -, hy, -, hxy⟩)
      · exact absurd hd (Nat.not_le.2 h')
      · cases hx; exact ha hax
      · cases hy; exact hb hay
      · cases hx; cases hy; exact (differ_atoms ha hb hab).1 hxy hsame
    | cons i p =>
      obtain ⟨xs, ys, x, y, rfl, rfl, -⟩ := aligned_cons.1 hal
      exact absurd rfl (hab xs ys rfl)

end

/-- The guards of one step answer the verdict, so only values within the limit are left
    to be compared. -/
theorem verdict_of_values {limit depth : Nat} (hl : limit ≤ stackLevels) {a b : Value}
    (h : depth ≤ limit → ¬ a.Alien → ¬ b.Alien →
      Verdict limit depth a.at? b.at? (a.equalAt limit depth b)) :
    Verdict limit depth a.at? b.at? (a.equalAt limit depth b) := by
  rcases Nat.lt_or_ge limit depth with hd | hd
  · rw [equalAt_tooDeep hd]
    exact verdict_root (.tooDeep hd)
  have hs := Nat.le_trans hd hl
  by_cases ha : a.Alien
  · rw [equalAt_alien_left hd hs ha]
    exact verdict_root (.left hd rfl ha)
  by_cases hb : b.Alien
  · rw [equalAt_alien_right hd hs ha hb]
    exact verdict_root (.right hd rfl ha rfl hb)
  exact h hd ha hb

/-- **The walk answers the verdict**, whatever the depth at which it starts. -/
theorem verdict_equalAt {limit : Nat} (hl : limit ≤ stackLevels) (a : Value) :
    ∀ depth b, Verdict limit depth a.at? b.at? (a.equalAt limit depth b) := by
  induction a using Value.induction with
  | atom a hatom =>
    intro depth b
    refine verdict_of_values hl ?_
    intro hd ha hb
    have hab : ∀ xs ys, a = list xs → b ≠ list ys := fun xs _ h => absurd h (hatom xs)
    obtain ⟨r, he, hr⟩ := equalAt_atoms hd (Nat.le_trans hd hl) ha hb hab
    rw [he]
    exact verdict_atoms hd ha hb hab hr
  | node xs ih =>
    intro depth b
    refine verdict_of_values hl ?_
    intro hd ha hb
    have hs := Nat.le_trans hd hl
    by_cases hys : ∃ ys, b = list ys
    · obtain ⟨ys, rfl⟩ := hys
      rw [equalAt_lists hd hs]
      split
      · next hlen =>
        exact verdict_lists hd hlen fun i x y hxy =>
          ih x (List.mem_of_getElem? hxy.1) (depth + 1) y
      · next hlen => exact verdict_lengths hd hlen
    · have hab : ∀ xs' ys, list xs = list xs' → b ≠ list ys := fun _ ys _ h => hys ⟨ys, h⟩
      obtain ⟨r, he, hr⟩ := equalAt_atoms hd hs ha hb hab
      rw [he]
      exact verdict_atoms hd ha hb hab hr

end LispCore.Value

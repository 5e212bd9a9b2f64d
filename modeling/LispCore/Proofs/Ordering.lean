/-
  LispCore — the comparisons of numbers.

  The order relations round their operands to doubles first, and equality compares
  exact values.

  * `Value.number?`: the double that a number stands for;
  * `Value.SameContent.equal`: numbers of one exact value stand for equal doubles.
    The converse fails where an integer has more digits than a double;
  * `World.comparisons`: which of the five comparisons hold, and that trichotomy
    fails for just these numbers.
-/
import LispCore.Proofs.Call
import LispCore.Proofs.Content
import LispCore.Proofs.Nearest

namespace LispCore

namespace Value

/-- The double that a number stands for; `nan` is not counted among the numbers. -/
def number? : Value → Option Double
  | number x => if x = .nan then none else some x
  | integer n => Double.ofInt? n
  | _ => none

/-- The double that an order relation takes a value for, `nan` included. -/
def double? : Value → Option Double
  | number x => some x
  | integer n => Double.ofInt? n
  | _ => none

theorem double?_of_number? {v : Value} {x : Double} (h : v.number? = some x) :
    v.double? = some x := by
  cases v with
  | number y =>
    rw [number?] at h
    split at h
    · cases h
    · exact h
  | integer n => exact h
  | _ => cases h

theorem expectNumber_of_double? {v : Value} {x : Double} (h : v.double? = some x)
    (operator : String) (position : Int) : expectNumber operator position v = .ok x := by
  cases v with
  | number y => exact congrArg Except.ok (Option.some.inj h)
  | integer n => rw [expectNumber, widen_of_some h]; rfl
  | _ => cases h

theorem not_alien_of_number? {v : Value} {x : Double} (h : v.number? = some x) : ¬ v.Alien := by
  cases v with
  | integer n => rw [number?] at h; simp [Alien, h]
  | foreign _ => cases h
  | _ => exact not_false

theorem not_list_of_number? {v : Value} {x : Double} (h : v.number? = some x) (xs : List Value) :
    v ≠ list xs := by
  rintro rfl; cases h

/-- The double that a number stands for has an exact value. -/
theorem value?_of_number? {v : Value} {x : Double} (h : v.number? = some x) :
    ∃ a, x.value? = some a := by
  refine Option.isSome_iff_exists.1 (Double.value?_isSome.2 ?_)
  rintro rfl
  cases v with
  | number y =>
    rw [number?] at h
    split at h
    · cases h
    · next hy => exact hy (Option.some.inj h)
  | integer n => have := Double.ofInt?_eq_some h; cases this
  | _ => cases h

theorem number?_number {x y : Double} (h : (number x).number? = some y) : x = y := by
  rw [number?] at h
  split at h
  · cases h
  · exact Option.some.inj h

theorem not_alien_integer {n : ℤ} {x : Double} (h : (integer n).number? = some x) :
    ¬ (integer n).Alien := not_alien_of_number? h

/-- **Numbers of one exact value stand for equal doubles.** -/
theorem SameContent.equal {a b : Value} {x y : Double} (h : a.SameContent b)
    (ha : a.number? = some x) (hb : b.number? = some y) : x.equal y = true := by
  have mixed {z : Double} {n : ℤ} (hz : z.value? = some (Double.exactOfInt n)) :
      z.equal (Double.ofInt n) = true := Double.equal_iff.2 ⟨_, hz, Double.ofInt_value? hz⟩
  cases a with
  | number x' =>
    obtain rfl := number?_number ha
    cases b with
    | number y' =>
      obtain rfl := number?_number hb
      exact sameContent_numbers.1 h
    | integer n =>
      rw [sameContent_integer_right (not_alien_integer hb), Double.equalInt_iff] at h
      rw [← Double.ofInt?_eq_some hb]
      exact mixed h
    | _ => cases hb
  | integer m =>
    cases b with
    | number y' =>
      obtain rfl := number?_number hb
      rw [sameContent_comm, sameContent_integer_right (not_alien_integer ha),
        Double.equalInt_iff] at h
      rw [← Double.ofInt?_eq_some ha, Double.equal_iff]
      exact ⟨_, Double.ofInt_value? h, h⟩
    | integer n =>
      rw [sameContent_integers (not_alien_integer ha) (not_alien_integer hb)] at h
      subst h
      obtain rfl := Option.some.inj (ha.symm.trans hb)
      obtain ⟨c, hc⟩ := value?_of_number? ha
      exact Double.equal_iff.2 ⟨c, hc, hc⟩
    | _ => cases hb
  | _ => cases ha

/-- Two different numbers that stand for equal doubles. -/
def Conflated (a b : Value) : Prop :=
  (∃ x y, a.number? = some x ∧ b.number? = some y ∧ x.equal y = true) ∧ ¬ a.SameContent b

end Value

theorem comparison_of_double? {a b : Value} {x y : Double} (ha : a.double? = some x)
    (hb : b.double? = some y) (operator : String) (relation : Double → Double → Bool) :
    comparison operator relation a b = .ok (.boolean (relation x y)) := by
  rw [comparison, Value.expectNumber_of_double? ha, Value.expectNumber_of_double? hb]
  rfl

namespace World

/-- An order relation of two numbers is that of the doubles that they are taken for. -/
theorem callByName_relation (world : World) {p : Primitive}
    {relation : Double → Double → Bool} (hp : p.operands? = some 2)
    (hrun : ∀ reader a b, p.run world reader [a, b] = .quiet (comparison p.name relation a b))
    {a b : Value} {x y : Double} (ha : a.double? = some x) (hb : b.double? = some y) :
    world.callByName p.name [a, b] = .quiet (.ok (.boolean (relation x y))) := by
  rw [callByName_two world hp, hrun, comparison_of_double? ha hb]

/-- An order relation of two numbers is that of the doubles that they stand for. -/
theorem callByName_comparison (world : World) {p : Primitive}
    {relation : Double → Double → Bool} (hp : p.operands? = some 2)
    (hrun : ∀ reader a b, p.run world reader [a, b] = .quiet (comparison p.name relation a b))
    {a b : Value} {x y : Double} (ha : a.number? = some x) (hb : b.number? = some y) :
    world.callByName p.name [a, b] = .quiet (.ok (.boolean (relation x y))) :=
  world.callByName_relation hp hrun (Value.double?_of_number? ha) (Value.double?_of_number? hb)

/-- The five comparisons of two values succeed with the given answers. -/
def Compares (world : World) (a b : Value) (lt eq gt le ge : Bool) : Prop :=
  world.callByName "<" [a, b] = .quiet (.ok (.boolean lt)) ∧
    world.callByName "=" [a, b] = .quiet (.ok (.boolean eq)) ∧
    world.callByName ">" [a, b] = .quiet (.ok (.boolean gt)) ∧
    world.callByName "<=" [a, b] = .quiet (.ok (.boolean le)) ∧
    world.callByName ">=" [a, b] = .quiet (.ok (.boolean ge))

/-- **Of two numbers, at most one of "less", "equal" and "greater" holds.  None of them
    does, and the two are at most each other without being equal, just if they are
    conflated.** -/
theorem comparisons (world : World) {a b : Value} {x y : Double} (ha : a.number? = some x)
    (hb : b.number? = some y) :
    ∃ lt eq gt le ge : Bool, world.Compares a b lt eq gt le ge ∧
      [lt, eq, gt].count true ≤ 1 ∧
      ([lt, eq, gt].count true = 1 ↔ ¬ a.Conflated b) ∧
      ((eq = true ↔ le = true ∧ ge = true) ↔ ¬ a.Conflated b) := by
  obtain ⟨eq, he, hsame⟩ := @Value.equalAt_atoms world.depthLimit 0 a b (Nat.zero_le _)
    (Nat.zero_le _) (Value.not_alien_of_number? ha) (Value.not_alien_of_number? hb)
    fun xs _ h => absurd h (Value.not_list_of_number? ha xs)
  obtain ⟨c, hc⟩ := Value.value?_of_number? ha
  obtain ⟨d, hd⟩ := Value.value?_of_number? hb
  refine ⟨x.less y, eq, y.less x, x.atMost y, y.atMost x, ⟨?_, ?_, ?_, ?_, ?_⟩, ?_⟩
  · exact world.callByName_comparison (p := .less) rfl (fun _ _ _ => rfl) ha hb
  · exact world.callByName_equals he
  · exact world.callByName_comparison (p := .greater) rfl (fun _ _ _ => rfl) ha hb
  · exact world.callByName_comparison (p := .atMost) rfl (fun _ _ _ => rfl) ha hb
  · exact world.callByName_comparison (p := .atLeast) rfl (fun _ _ _ => rfl) ha hb
  -- what is left is about the order of the two exact values
  have hconf : a.Conflated b ↔ c = d ∧ ¬ eq = true := by
    rw [Value.Conflated, ← hsame, ← Double.equal_iff_exact hc hd]
    simp [ha, hb]
  have heq : eq = true → c = d := fun h =>
    (Double.equal_iff_exact hc hd).1 ((hsame.1 h).equal ha hb)
  have hlt : x.less y = decide (c < d) := Bool.eq_iff_iff.2 (by simp [Double.less_iff hc hd])
  have hgt : y.less x = decide (d < c) := Bool.eq_iff_iff.2 (by simp [Double.less_iff hd hc])
  rw [hconf, Double.atMost_iff hc hd, Double.atMost_iff hd hc, hlt, hgt, ← le_antisymm_iff]
  rcases lt_trichotomy c d with h | h | h
  · cases eq with
    | true => exact absurd (heq rfl) h.ne
    | false => simp [h, h.not_gt, h.ne]
  · cases eq <;> simp [h]
  · cases eq with
    | true => exact absurd (heq rfl) h.ne'
    | false => simp [h, h.not_gt, h.ne']

/-- The integer after 2⁵³ is rounded, and equals the double below it no more than it
    is less or greater. -/
theorem comparisons_of_rounded :
    (∃ x, (Value.integer 9007199254740993).number? = some x ∧
      (Value.number (.ofBits 0x4340000000000000)).number? = some x) ∧
    (World.initial {} .empty .absent).Compares (.integer 9007199254740993)
      (.number (.ofBits 0x4340000000000000)) false false false true true := by
  have ha : (Value.integer 9007199254740993).number? = some (.ofBits 0x4340000000000000) := by
    decide +kernel
  have hb : (Value.number (.ofBits 0x4340000000000000)).number? =
      some (.ofBits 0x4340000000000000) := by decide +kernel
  refine ⟨⟨_, ha, hb⟩, ?_, ?_, ?_, ?_, ?_⟩
  · exact callByName_comparison _ (p := .less) rfl (fun _ _ _ => rfl) ha hb
  · exact callByName_equals _ (by decide +kernel)
  · exact callByName_comparison _ (p := .greater) rfl (fun _ _ _ => rfl) ha hb
  · exact callByName_comparison _ (p := .atMost) rfl (fun _ _ _ => rfl) ha hb
  · exact callByName_comparison _ (p := .atLeast) rfl (fun _ _ _ => rfl) ha hb

/-- The same integer and the next greater double are not conflated. -/
theorem comparisons_of_distinct :
    (Value.integer 9007199254740993).number? = some (.ofBits 0x4340000000000000) ∧
    (Value.number (.ofBits 0x4340000000000001)).number? = some (.ofBits 0x4340000000000001) ∧
    ∃ lt eq gt le ge : Bool, (World.initial {} .empty .absent).Compares
      (.integer 9007199254740993) (.number (.ofBits 0x4340000000000001)) lt eq gt le ge ∧
      [lt, eq, gt].count true = 1 ∧ (eq = true ↔ le = true ∧ ge = true) := by
  have ha : (Value.integer 9007199254740993).number? = some (.ofBits 0x4340000000000000) := by
    decide +kernel
  have hb : (Value.number (.ofBits 0x4340000000000001)).number? =
      some (.ofBits 0x4340000000000001) := by decide +kernel
  have hne : ¬ (Value.integer 9007199254740993).Conflated
      (.number (.ofBits 0x4340000000000001)) := by
    rintro ⟨⟨x, y, hx, hy, h⟩, -⟩
    obtain rfl := Option.some.inj (ha.symm.trans hx)
    obtain rfl := Option.some.inj (hb.symm.trans hy)
    exact absurd h (by decide)
  obtain ⟨lt, eq, gt, le, ge, h, -, hcount, heq⟩ :=
    comparisons (World.initial {} .empty .absent) ha hb
  exact ⟨ha, hb, lt, eq, gt, le, ge, h, hcount.2 hne, heq.2 hne⟩

end World

end LispCore

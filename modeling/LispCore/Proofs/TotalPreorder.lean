/-
  LispCore — the order of numbers.

  The order relations round integers to doubles, which may make different integers equal
  but never turns their order round.

  * `Value.exactValue?`: the exact value of a number, an infinity included;
  * `IsPlace`: the place of the double that an exact value is rounded to, and
    `IsPlace.mono`: greater values have greater places;
  * `World.Says`: what a relation of the namespace answers for two values;
  * `World.order_laws`: the order relations are a total preorder that agrees with the exact
    values, and none of them holds of `nan`.
-/
import LispCore.Proofs.Conversion
import LispCore.Proofs.Ordering

namespace LispCore

/-! ## Places -/

/-- The place, in the order of doubles, of the double that an exact value is rounded to. -/
inductive IsPlace : Exact → ℤ → Prop
  | top : IsPlace ⊤ infinityRank
  | bot : IsPlace ⊥ (-infinityRank)
  | plus {u r : ℕ} : Magnitude.Nearest u r → r ≤ infinityRank →
      IsPlace (((u : ℤ) : WithTop ℤ) : Exact) r
  | minus {u r : ℕ} : Magnitude.Nearest u r → r ≤ infinityRank →
      IsPlace (((-u : ℤ) : WithTop ℤ) : Exact) (-r)

namespace IsPlace

theorem bounds {e : Exact} {p : ℤ} (h : IsPlace e p) :
    -(infinityRank : ℤ) ≤ p ∧ p ≤ infinityRank := by
  cases h <;> omega

theorem finite_le {k l : ℤ} :
    ((k : WithTop ℤ) : Exact) ≤ ((l : WithTop ℤ) : Exact) ↔ k ≤ l :=
  WithBot.coe_le_coe.trans WithTop.coe_le_coe

/-- **Rounding keeps the order of exact values**, infinities and signs included. -/
theorem mono {e e' : Exact} {p p' : ℤ} (h : IsPlace e p) (h' : IsPlace e' p') (he : e ≤ e') :
    p ≤ p' := by
  cases h with
  | bot => exact h'.bounds.1
  | top =>
    obtain rfl := top_le_iff.1 he
    cases h' with
    | top => exact le_rfl
  | @plus u r hr hle =>
    cases h' with
    | top => exact Int.ofNat_le.2 hle
    | bot => exact absurd he (by simp)
    | @plus v s hs _ =>
      have huv : u ≤ v := Int.ofNat_le.1 (finite_le.1 he)
      have hrs := hr.mono hs (by exact_mod_cast huv)
      omega
    | @minus v s hs _ =>
      -- both values are zero
      have huv := finite_le.1 he
      obtain rfl : u = 0 := by omega
      obtain rfl : v = 0 := by omega
      rw [Nat.cast_zero] at hr hs
      rw [hr.eq_zero, hs.eq_zero]
      rfl
  | @minus u r hr hle =>
    cases h' with
    | top => exact (IsPlace.minus hr hle).bounds.2
    | bot => exact absurd he (by simp)
    | plus => omega
    | @minus v s hs _ =>
      have huv : v ≤ u := Int.ofNat_le.1 (neg_le_neg_iff.1 (finite_le.1 he))
      have hrs := hs.mono hr (by exact_mod_cast huv)
      omega

end IsPlace

/-! ## Numbers and their exact values -/

namespace Double

/-- The place of a double is that of its exact value. -/
theorem isPlace_of_value? {x : Double} {e : Exact} (h : x.value? = some e) :
    ∃ p, x.place? = some p ∧ IsPlace e p := by
  cases x with
  | nan => cases h
  | signed negative size =>
    refine ⟨_, rfl, ?_⟩
    cases hf : size.isInfinite with
    | true =>
      have hrank : size.rank = infinityRank := by simpa [Magnitude.isInfinite] using hf
      rw [value?, hf] at h
      obtain rfl := Option.some.inj h
      rw [hrank]
      cases negative with
      | true => exact .bot
      | false => exact .top
    | false =>
      have hnearest := Magnitude.nearest_units size.rank
      rw [value?_signed hf] at h
      obtain rfl := Option.some.inj h
      cases negative with
      | true => exact .minus hnearest size.rank_le
      | false => exact .plus hnearest size.rank_le

/-- The double that an integer stands for is at the place of the integer. -/
theorem isPlace_of_ofInt? {n : ℤ} {x : Double} (h : ofInt? n = some x) :
    ∃ p, x.place? = some p ∧ IsPlace (exactOfInt n) p := by
  rcases ofInt?_cases n with ⟨-, size, -, hr, hx⟩ | ⟨-, hx⟩
  · obtain rfl := Option.some.inj (hx.symm.trans h)
    refine ⟨_, rfl, ?_⟩
    have hnearest : Magnitude.Nearest (unitsPerOne * n.natAbs : ℕ) size.rank := by
      rw [Nat.cast_mul, Nat.cast_natAbs, Int.cast_abs]
      exact hr
    rcases lt_or_ge n 0 with hn | hn
    · have hexact : n * unitsPerOne = -((unitsPerOne * n.natAbs : ℕ) : ℤ) := by
        rw [Nat.cast_mul, Int.ofNat_natAbs_of_nonpos hn.le]
        ring
      rw [exactOfInt, hexact, decide_eq_true hn]
      exact .minus hnearest size.rank_le
    · have hexact : n * unitsPerOne = ((unitsPerOne * n.natAbs : ℕ) : ℤ) := by
        rw [Nat.cast_mul, Int.natAbs_of_nonneg hn]
        ring
      rw [exactOfInt, hexact, decide_eq_false (not_lt.2 hn)]
      exact .plus hnearest size.rank_le
  · rw [hx] at h
    cases h

theorem less_nan (x : Double) : x.less nan = false := by
  cases x <;> rfl

theorem atMost_nan (x : Double) : x.atMost nan = false := by
  cases x <;> rfl

end Double

namespace Value

/-- The exact value of a number that is not `nan`: that of a double, and an integer
    itself, if it is not too large for a number. -/
def exactValue? : Value → Option Exact
  | number x => x.value?
  | integer n => (Double.ofInt? n).map fun _ => Double.exactOfInt n
  | _ => none

/-- Whether the value is a number, `nan` included. -/
def IsNumber (v : Value) : Prop := v.exactValue?.isSome ∨ v = number .nan

/-- The double that a number is taken for is at the place of its exact value. -/
theorem isPlace_of_exactValue? {v : Value} {e : Exact} (h : v.exactValue? = some e) :
    ∃ x p, v.double? = some x ∧ x.place? = some p ∧ IsPlace e p := by
  cases v with
  | number x =>
    obtain ⟨p, hp, he⟩ := Double.isPlace_of_value? h
    exact ⟨x, p, rfl, hp, he⟩
  | integer n =>
    obtain ⟨x, hx, rfl⟩ := Option.map_eq_some_iff.1 h
    obtain ⟨p, hp, he⟩ := Double.isPlace_of_ofInt? hx
    exact ⟨x, p, hx, hp, he⟩
  | _ => cases h

theorem IsNumber.double? {v : Value} (h : v.IsNumber) : ∃ x, v.double? = some x := by
  rcases h with h | rfl
  · obtain ⟨e, he⟩ := Option.isSome_iff_exists.1 h
    obtain ⟨x, -, hx, -⟩ := isPlace_of_exactValue? he
    exact ⟨x, hx⟩
  · exact ⟨.nan, rfl⟩

end Value

/-! ## The relations -/

namespace World

/-- What the relation of a name answers for two values. -/
def Says (world : World) (relation : String) (a b : Value) (answer : Bool) : Prop :=
  world.callByName relation [a, b] = .quiet (.ok (.boolean answer))

theorem Says.unique {world : World} {relation : String} {a b : Value} {r s : Bool}
    (h : world.Says relation a b r) (h' : world.Says relation a b s) : r = s := by
  have heq := congrArg Observed.result (h.symm.trans h')
  simpa [Observed.quiet] using heq

/-- The answers of the four relations are those for the doubles, in one order or the
    other. -/
theorem says_of_double? (world : World) {a b : Value} {x y : Double} (ha : a.double? = some x)
    (hb : b.double? = some y) :
    world.Says "<" a b (x.less y) ∧ world.Says ">" a b (y.less x) ∧
      world.Says "<=" a b (x.atMost y) ∧ world.Says ">=" a b (y.atMost x) := by
  refine ⟨?_, ?_, ?_, ?_⟩
  · exact world.callByName_relation (p := .less) rfl (fun _ _ _ => rfl) ha hb
  · exact world.callByName_relation (p := .greater) rfl (fun _ _ _ => rfl) ha hb
  · exact world.callByName_relation (p := .atMost) rfl (fun _ _ _ => rfl) ha hb
  · exact world.callByName_relation (p := .atLeast) rfl (fun _ _ _ => rfl) ha hb

/-- The answers of the four relations are those for the places. -/
theorem says_of_places (world : World) {a b : Value} {x y : Double} {p q : ℤ}
    (ha : a.double? = some x) (hb : b.double? = some y) (hp : x.place? = some p)
    (hq : y.place? = some q) :
    world.Says "<" a b (decide (p < q)) ∧ world.Says ">" a b (decide (q < p)) ∧
      world.Says "<=" a b (decide (p ≤ q)) ∧ world.Says ">=" a b (decide (q ≤ p)) := by
  have h := world.says_of_double? ha hb
  simp only [Double.less, Double.atMost, hp, hq] at h
  exact h

/-- "At most" is transitive. -/
theorem says_atMost_trans (world : World) {a b c : Value} (ha : a.exactValue?.isSome)
    (hb : b.exactValue?.isSome) (hc : c.exactValue?.isSome) (hab : world.Says "<=" a b true)
    (hbc : world.Says "<=" b c true) : world.Says "<=" a c true := by
  obtain ⟨ea, ha⟩ := Option.isSome_iff_exists.1 ha
  obtain ⟨eb, hb⟩ := Option.isSome_iff_exists.1 hb
  obtain ⟨ec, hc⟩ := Option.isSome_iff_exists.1 hc
  obtain ⟨x, p, hx, hp, -⟩ := Value.isPlace_of_exactValue? ha
  obtain ⟨y, q, hy, hq, -⟩ := Value.isPlace_of_exactValue? hb
  obtain ⟨z, r, hz, hr, -⟩ := Value.isPlace_of_exactValue? hc
  obtain ⟨-, -, hpq, -⟩ := world.says_of_places hx hy hp hq
  obtain ⟨-, -, hqr, -⟩ := world.says_of_places hy hz hq hr
  obtain ⟨-, -, hpr, -⟩ := world.says_of_places hx hz hp hr
  have hpq := of_decide_eq_true (hpq.unique hab)
  have hqr := of_decide_eq_true (hqr.unique hbc)
  rwa [decide_eq_true (hpq.trans hqr)] at hpr

/-- No order relation holds of `nan`. -/
theorem says_nan (world : World) {a b : Value} (ha : a.IsNumber) (hb : b.IsNumber)
    (hnan : a = .number .nan ∨ b = .number .nan) :
    world.Says "<" a b false ∧ world.Says ">" a b false ∧
      world.Says "<=" a b false ∧ world.Says ">=" a b false := by
  obtain ⟨x, hx⟩ := ha.double?
  obtain ⟨y, hy⟩ := hb.double?
  have h := world.says_of_double? hx hy
  rcases hnan with rfl | rfl
  · obtain rfl := Option.some.inj hx
    rwa [Double.less_nan, Double.atMost_nan] at h
  · obtain rfl := Option.some.inj hy
    rwa [Double.less_nan, Double.atMost_nan] at h

/-- **The order relations are a total preorder that agrees with the exact values**, which
    rounding may make equal but never turns round, and none of them holds of `nan`. -/
theorem order_laws (world : World) :
    (∀ (a b : Value) (x y : Exact), a.exactValue? = some x → b.exactValue? = some y →
      (x ≤ y → world.Says "<=" a b true ∧ world.Says ">" a b false) ∧
      (world.Says "<" a b true → x < y) ∧
      (∃ lt le : Bool,
        world.Says "<" a b lt ∧ world.Says ">" b a lt ∧ world.Says ">=" a b (!lt) ∧
        world.Says "<=" a b le ∧ world.Says ">=" b a le ∧ world.Says ">" a b (!le)) ∧
      (world.Says "<=" a b true ∨ world.Says "<=" b a true)) ∧
    (∀ (a b c : Value), a.exactValue?.isSome → b.exactValue?.isSome → c.exactValue?.isSome →
      world.Says "<=" a b true → world.Says "<=" b c true → world.Says "<=" a c true) ∧
    (∀ (a b : Value), a.IsNumber → b.IsNumber → a = .number .nan ∨ b = .number .nan →
      world.Says "<" a b false ∧ world.Says ">" a b false ∧
      world.Says "<=" a b false ∧ world.Says ">=" a b false) := by
  refine ⟨?_, fun _ _ _ => world.says_atMost_trans, fun _ _ => world.says_nan⟩
  intro a b ea eb ha hb
  obtain ⟨x, p, hx, hp, hap⟩ := Value.isPlace_of_exactValue? ha
  obtain ⟨y, q, hy, hq, hbq⟩ := Value.isPlace_of_exactValue? hb
  obtain ⟨hlt, hgt, hle, hge⟩ := world.says_of_places hx hy hp hq
  obtain ⟨-, hgt', hle', hge'⟩ := world.says_of_places hy hx hq hp
  refine ⟨?_, ?_, ⟨decide (p < q), decide (p ≤ q), ?_⟩, ?_⟩
  · intro hxy
    have hpq := hap.mono hbq hxy
    rw [decide_eq_true hpq] at hle
    rw [decide_eq_false (not_lt.2 hpq)] at hgt
    exact ⟨hle, hgt⟩
  · intro h
    have hpq : p < q := of_decide_eq_true (hlt.unique h)
    -- values in the other order would have places in the other order
    by_contra hxy
    exact absurd (hbq.mono hap (not_lt.1 hxy)) (not_le.2 hpq)
  · refine ⟨hlt, hgt', ?_, hle, hge', ?_⟩
    · rwa [← decide_not, decide_eq_decide.2 not_lt]
    · rwa [← decide_not, decide_eq_decide.2 not_le]
  · rcases le_total p q with hpq | hpq
    · left
      rwa [decide_eq_true hpq] at hle
    · right
      rwa [decide_eq_true hpq] at hle'

/-- The integers from 2⁵³ on that are rounded are in order, up to infinity, and `nan` is not
    among them. -/
theorem order_laws_of_rounded :
    let world := World.initial {} .empty .absent
    let infinity := Value.number (.signed false .infinity)
    world.Says "<=" (.integer 9007199254740992) (.integer 9007199254740993) true ∧
      world.Says ">" (.integer 9007199254740993) infinity false ∧
      world.Says "<=" (.integer 9007199254740992) infinity true ∧
      world.Says "<=" (.integer 9007199254740993) (.number .nan) false := by
  intro world infinity
  have ha : (Value.integer 9007199254740992).exactValue? =
      some (Double.exactOfInt 9007199254740992) := by decide +kernel
  have hb : (Value.integer 9007199254740993).exactValue? =
      some (Double.exactOfInt 9007199254740993) := by decide +kernel
  have hc : infinity.exactValue? = some ⊤ := rfl
  obtain ⟨horder, htrans, hnan⟩ := order_laws world
  have hab := ((horder _ _ _ _ ha hb).1 (by decide +kernel)).1
  obtain ⟨hbc, hgt⟩ := (horder _ _ _ _ hb hc).1 le_top
  refine ⟨hab, hgt, htrans _ _ _ ?_ ?_ ?_ hab hbc, ?_⟩
  · rw [ha]; rfl
  · rw [hb]; rfl
  · rw [hc]; rfl
  · exact (hnan _ _ (.inl (by rw [hb]; rfl)) (.inr rfl) (.inr rfl)).2.2.1

end World

end LispCore

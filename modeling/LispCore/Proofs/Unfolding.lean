/-
  LispCore — values that contain themselves.

  A list that contains itself unfolds without end.  It is known by its stages, finite
  values of which each one agrees with those after it as far down as it counts.

  * `AgreeTo n`: two layouts are the same down to `n` lists;
  * `Unfolding`: a value that may contain itself, by its stages;
  * `Unfolding.at?`: what it has at each position;
  * `Unfolding.ofValue`, `Unfolding.cycle`: a value, and a list that contains itself;
  * `Unfolding.equal_eq_iff_verdict`: what equality means, on any stage beyond the limit.
-/
import LispCore.Proofs.Verdict

namespace LispCore

open Value

theorem Value.at?_take {v w : Value} {p : Path} (h : v.at? p = some w) (k : Nat) :
    ∃ x, v.at? (p.take k) = some x := by
  induction p generalizing v k with
  | nil => exact ⟨w, by rwa [List.take_nil]⟩
  | cons i p ih =>
    cases k with
    | zero => exact ⟨v, rfl⟩
    | succ k =>
      obtain ⟨xs, y, rfl, hy, hw⟩ := at?_cons_eq_some h
      rw [List.take_succ_cons, at?_list_cons hy]
      exact ih hw k

/-- Two values that are the same but for the elements of a list. -/
inductive Value.SameHead : Value → Value → Prop
  | same (v) : SameHead v v
  | lists {xs ys} : xs.length = ys.length → SameHead (list xs) (list ys)

namespace Value.SameHead

variable {x y x' y' : Value}

theorem symm (h : x.SameHead y) : y.SameHead x := by
  rcases h with _ | h
  · exact .same _
  · exact .lists h.symm

theorem alien_iff (h : x.SameHead x') : x.Alien ↔ x'.Alien := by
  rcases h with _ | _ <;> rfl

theorem typeName_eq (h : x.SameHead x') : x.typeName = x'.typeName := by
  rcases h with _ | _ <;> rfl

theorem length_eq {xs : List Value} (h : (list xs).SameHead x') :
    ∃ xs', x' = list xs' ∧ xs.length = xs'.length := by
  rcases h with _ | h
  · exact ⟨xs, rfl, rfl⟩
  · exact ⟨_, rfl, h⟩

/-- Whether two values differ is settled by their heads. -/
theorem differ (hx : x.SameHead x') (hy : y.SameHead y') (h : x.Differ y) : x'.Differ y' := by
  rcases hx with _ | hx
  · rcases hy with _ | hy
    · exact h
    · rcases h with ⟨hv, hw, hne⟩ | ⟨hv, hw, hl, -, -⟩ | _ | h
      · exact .variants hv hw hne
      · cases hw; exact absurd rfl hl
      · exact .lengths (hy ▸ h)
  · rcases hy with _ | hy
    · rcases h with ⟨hv, hw, hne⟩ | ⟨hv, hw, hl, -, -⟩ | _ | h
      · exact .variants hv hw hne
      · cases hv; exact absurd rfl hl
      · exact .lengths (hx ▸ h)
    · exact .lengths (hx ▸ hy ▸ differ_lists.1 h)

end Value.SameHead

/-- Two layouts are the same down to `n` lists. -/
def AgreeTo (n : Nat) (a b : Layout) : Prop :=
  ∀ p, p.length ≤ n → Option.Rel SameHead (a p) (b p)

namespace AgreeTo

variable {n : Nat} {a b a' b' : Layout} {p : Path}

theorem refl (a : Layout) : AgreeTo n a a := by
  intro p _
  cases a p with
  | some x => exact .some (.same x)
  | none => exact .none

theorem symm (h : AgreeTo n a b) : AgreeTo n b a := by
  intro p hp
  have := h p hp
  generalize a p = x, b p = y at this ⊢
  cases this with
  | some h => exact .some h.symm
  | none => exact .none

theorem mono {m : Nat} (h : AgreeTo n a b) (hm : m ≤ n) : AgreeTo m a b :=
  fun p hp => h p (Nat.le_trans hp hm)

theorem exists_sameHead (h : AgreeTo n a b) (hp : p.length ≤ n) {x : Value} (hx : a p = some x) :
    ∃ y, b p = some y ∧ x.SameHead y := by
  have := h p hp
  rw [hx] at this
  generalize b p = o at this
  cases this with
  | some h => exact ⟨_, rfl, h⟩

theorem lists_zero {xs ys : List Value} (h : xs.length = ys.length) :
    AgreeTo 0 (list xs).at? (list ys).at? := by
  intro p hp
  obtain rfl := List.eq_nil_of_length_eq_zero (Nat.le_zero.1 hp)
  exact .some (.lists h)

theorem lists_succ {xs ys : List Value}
    (h : List.Forall₂ (fun x y => AgreeTo n x.at? y.at?) xs ys) :
    AgreeTo (n + 1) (list xs).at? (list ys).at? := by
  intro p hp
  cases p with
  | nil => exact .some (.lists h.length_eq)
  | cons i p =>
    rw [at?_cons, at?_cons, element?, element?]
    rcases Nat.lt_or_ge i xs.length with hi | hi
    · have hi' : i < ys.length := h.length_eq ▸ hi
      rw [List.getElem?_eq_getElem hi, List.getElem?_eq_getElem hi']
      exact h.get hi hi' p (Nat.le_of_succ_le_succ hp)
    · have hi' : ys.length ≤ i := h.length_eq ▸ hi
      rw [List.getElem?_eq_none hi, List.getElem?_eq_none hi']
      exact .none

/-- What is asked of all positions within the limit, and of heads alone, may be asked of
    either layout. -/
theorem forall_within {limit : Nat} {P : Value → Prop} (hP : ∀ {x y}, x.SameHead y → P x → P y)
    (hb : ∀ {p y}, b p = some y → ∀ k, ∃ z, b (p.take k) = some z)
    (hab : AgreeTo (limit + 1) a b) (ha : ∀ p x, a p = some x → p.length ≤ limit ∧ P x) :
    ∀ p y, b p = some y → p.length ≤ limit ∧ P y := by
  intro p y hy
  rcases Nat.lt_or_ge (limit + 1) p.length with hp | hp
  · obtain ⟨z, hz⟩ := hb hy (limit + 1)
    have hlen : (p.take (limit + 1)).length = limit + 1 :=
      List.length_take_of_le (Nat.le_of_lt hp)
    obtain ⟨x, hx, -⟩ := hab.symm.exists_sameHead (Nat.le_of_eq hlen) hz
    have := (ha _ x hx).1
    omega
  · obtain ⟨x, hx, hyx⟩ := hab.symm.exists_sameHead hp hy
    obtain ⟨hlen, hPx⟩ := ha p x hx
    exact ⟨hlen, hP hyx.symm hPx⟩

/-- Whether a position is aligned depends on what is above it alone. -/
theorem aligned (ha : AgreeTo n a a') (hb : AgreeTo n b b') (hp : p.length ≤ n)
    (h : Aligned a b p) : Aligned a' b' p := by
  obtain ⟨hx, hy, hq⟩ := h
  obtain ⟨x, hx⟩ := Option.isSome_iff_exists.1 hx
  obtain ⟨y, hy⟩ := Option.isSome_iff_exists.1 hy
  obtain ⟨x', hx', -⟩ := ha.exists_sameHead hp hx
  obtain ⟨y', hy', -⟩ := hb.exists_sameHead hp hy
  refine ⟨by rw [hx']; rfl, by rw [hy']; rfl, ?_⟩
  intro q hqp hne
  have hqn := Nat.le_trans hqp.length_le hp
  obtain ⟨xs, ys, hxs, hys, hlen⟩ := hq q hqp hne
  obtain ⟨_, hxs', hx'⟩ := ha.exists_sameHead hqn hxs
  obtain ⟨_, hys', hy'⟩ := hb.exists_sameHead hqn hys
  obtain ⟨xs', rfl, hxl⟩ := hx'.length_eq
  obtain ⟨ys', rfl, hyl⟩ := hy'.length_eq
  exact ⟨xs', ys', hxs', hys', by rw [← hxl, ← hyl, hlen]⟩

theorem decides (ha : AgreeTo n a a') (hb : AgreeTo n b b') (hp : p.length ≤ n)
    {limit depth : Nat} {o : Except Error Bool} (h : Decides limit depth a b p o) :
    Decides limit depth a' b' p o := by
  rcases h with h | ⟨h, hx, hax⟩ | ⟨h, hx, hax, hy, hay⟩ | ⟨h, hx, hax, hy, hay, hxy⟩
  · exact .tooDeep h
  · obtain ⟨x', hx', hxx⟩ := ha.exists_sameHead hp hx
    rw [hxx.typeName_eq]
    exact .left h hx' (hxx.alien_iff.1 hax)
  · obtain ⟨x', hx', hxx⟩ := ha.exists_sameHead hp hx
    obtain ⟨y', hy', hyy⟩ := hb.exists_sameHead hp hy
    rw [hyy.typeName_eq]
    exact .right h hx' (mt hxx.alien_iff.2 hax) hy' (hyy.alien_iff.1 hay)
  · obtain ⟨x', hx', hxx⟩ := ha.exists_sameHead hp hx
    obtain ⟨y', hy', hyy⟩ := hb.exists_sameHead hp hy
    exact .differ h hx' (mt hxx.alien_iff.2 hax) hy' (mt hyy.alien_iff.2 hay) (hxx.differ hyy hxy)

end AgreeTo

namespace Value

/-- The part of an aligned position down to `n` lists is aligned. -/
theorem Aligned.take {a b : Layout} {p : Path} (h : Aligned a b p) (n : Nat) :
    Aligned a b (p.take n) := by
  by_cases hp : p.take n = p
  · rwa [hp]
  obtain ⟨xs, ys, hx, hy, -⟩ := h.2.2 _ (List.take_prefix n p) hp
  refine ⟨by rw [hx]; rfl, by rw [hy]; rfl, ?_⟩
  intro q hq _
  refine h.2.2 q (hq.trans (List.take_prefix n p)) fun hqp => hp ?_
  subst hqp
  exact (List.take_prefix n q).eq_of_length_le hq.length_le

/-- Below the limit, the position just past it settles the answer already. -/
theorem cutAt_settles {limit : Nat} {a b : Layout} :
    CutAt (limit + 1) (Settles limit 0 a b) := by
  intro p o h hlt
  refine ⟨_, h.1.take (limit + 1), .tooDeep ?_⟩
  rw [List.length_take_of_le (Nat.le_of_lt hlt)]
  omega

theorem verdict_congr {limit : Nat} {a b a' b' : Layout} (ha : AgreeTo (limit + 1) a a')
    (hb : AgreeTo (limit + 1) b b') {o : Except Error Bool} (h : Verdict limit 0 a b o) :
    Verdict limit 0 a' b' o := by
  have hiff (p : Path) (o : Except Error Bool) (hp : p.length ≤ limit + 1) :
      Settles limit 0 a b p o ↔ Settles limit 0 a' b' p o :=
    ⟨fun h => ⟨ha.aligned hb hp h.1, ha.decides hb hp h.2⟩,
      fun h => ⟨ha.symm.aligned hb.symm hp h.1, ha.symm.decides hb.symm hp h.2⟩⟩
  rcases h with ⟨p, hfirst⟩ | ⟨rfl, hnone⟩
  · exact Or.inl ⟨p, firstDecides_iff.2
      ((firstDecides_iff.1 hfirst).of_cut cutAt_settles cutAt_settles hiff)⟩
  · have := forall_not_of_cut cutAt_settles hiff fun p o hs => hnone p o hs.1 hs.2
    exact Or.inr ⟨rfl, fun p o hal hdec => this p o ⟨hal, hdec⟩⟩

end Value

/-- A value that may contain itself: finite stages, each right down to as many lists as
    its number says. -/
structure Unfolding where
  stage : Nat → Value
  agree : ∀ {m n}, m ≤ n → AgreeTo m (stage m).at? (stage n).at?

namespace Unfolding

/-- What stands at each position. -/
def at? (a : Unfolding) : Layout := fun p => (a.stage p.length).at? p

theorem agree_stage (a : Unfolding) (n : Nat) : AgreeTo n a.at? (a.stage n).at? :=
  fun p hp => a.agree hp p (Nat.le_refl _)

theorem at?_take (a : Unfolding) {p : Path} {x : Value} (h : a.at? p = some x) (k : Nat) :
    ∃ y, a.at? (p.take k) = some y := by
  obtain ⟨z, hz⟩ := Value.at?_take h k
  obtain ⟨y, hy, -⟩ := (a.agree_stage p.length).symm.exists_sameHead (List.length_take_le' k p) hz
  exact ⟨y, hy⟩

/-- A value is each of its own stages. -/
def ofValue (v : Value) : Unfolding := ⟨fun _ => v, fun _ => .refl v.at?⟩

theorem agree_unroll {n k l : Nat} {xs ys xs' ys' : List Value} (hk : n < k) (hl : n < l)
    (hxs : List.Forall₂ (fun x y => AgreeTo n x.at? y.at?) xs xs')
    (hys : List.Forall₂ (fun x y => AgreeTo n x.at? y.at?) ys ys') :
    AgreeTo n (unroll xs ys k).at? (unroll xs' ys' l).at? := by
  induction n generalizing k l with
  | zero =>
    obtain ⟨k, rfl⟩ := Nat.exists_eq_add_of_lt hk
    obtain ⟨l, rfl⟩ := Nat.exists_eq_add_of_lt hl
    refine .lists_zero ?_
    simp only [List.length_append, List.length_cons, hxs.length_eq, hys.length_eq]
  | succ n ih =>
    obtain ⟨k, rfl⟩ := Nat.exists_eq_add_of_lt hk
    obtain ⟨l, rfl⟩ := Nat.exists_eq_add_of_lt hl
    have hxs' := hxs.imp fun _ _ h => h.mono (Nat.le_succ n)
    have hys' := hys.imp fun _ _ h => h.mono (Nat.le_succ n)
    exact .lists_succ (List.rel_append hxs' (.cons (ih (by omega) (by omega) hxs' hys') hys'))

theorem agree_map (elements : List Unfolding) {m n : Nat} (h : m ≤ n) :
    List.Forall₂ (fun x y => AgreeTo m x.at? y.at?) (elements.map fun a => a.stage m)
      (elements.map fun a => a.stage n) := by
  rw [List.forall₂_map_left_iff, List.forall₂_map_right_iff, List.forall₂_same]
  exact fun a _ => a.agree h

/-- The list of some elements, itself, and some more elements. -/
def cycle (before after : List Unfolding) : Unfolding where
  stage n := unroll (before.map fun a => a.stage n) (after.map fun a => a.stage n) (n + 1)
  agree h := agree_unroll (Nat.lt_succ_self _) (Nat.lt_succ_of_le h) (agree_map before h)
    (agree_map after h)

/-- **What equality means**: the answer is that of the first position that settles it,
    and `true` if no position does.  Lists that contain themselves are allowed anywhere;
    any stage beyond the limit stands for them. -/
theorem equal_eq_iff_verdict {limit m n : Nat} (hl : limit ≤ stackLevels) (a b : Unfolding)
    (hm : limit < m) (hn : limit < n) (o : Except Error Bool) :
    (a.stage m).equal limit (b.stage n) = o ↔ Verdict limit 0 a.at? b.at? o := by
  have ha := (a.agree_stage m).mono hm
  have hb := (b.agree_stage n).mono hn
  have h := verdict_equalAt hl (a.stage m) 0 (b.stage n)
  constructor
  · rintro rfl
    exact verdict_congr ha.symm hb.symm h
  · intro h'
    exact verdict_unique h (verdict_congr ha hb h')

/-- Two lists that contain themselves and end with different foreign objects: the limit
    is exceeded on the way down, before the objects are reached. -/
theorem verdict_cycles : 3 ≤ stackLevels ∧
    ((cycle [ofValue .nil] [ofValue (.foreign "object")]).stage 4).equal 3
      ((cycle [ofValue .nil] [ofValue (.foreign "set")]).stage 5) =
        .error (.tooDeep .comparing 3) ∧
    Verdict 3 0 (cycle [ofValue .nil] [ofValue (.foreign "object")]).at?
      (cycle [ofValue .nil] [ofValue (.foreign "set")]).at? (.error (.tooDeep .comparing 3)) :=
  ⟨by decide, rfl, (equal_eq_iff_verdict (m := 4) (n := 5) (by decide) _ _ (by decide)
    (by decide) _).1 rfl⟩

end Unfolding

end LispCore

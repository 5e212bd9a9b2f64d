/-
  LispCore — equality is symmetric, transitive, and reflexive where it can be.

  * `Value.Alike`: values that equality cannot tell apart, as a relation on trees;
  * `Value.alike_of_equalAt`, `Value.equalAt_of_alike`: two values are equal just if
    they are alike and nest no deeper than the limit;
  * `Value.Verdict.symm`: the two directions of a comparison agree up to which of
    two alien values is named;
  * `equal_laws`: the three laws, for values that may contain themselves.
-/
import LispCore.Proofs.Unfolding

namespace LispCore

namespace Value

/-- Values that equality cannot tell apart. -/
inductive Alike : Value → Value → Prop
  /-- Atoms that hold the same. -/
  | atoms {a b} : a.SameContent b → Alike a b
  /-- Lists of one length, element by element. -/
  | lists {xs ys} : xs.length = ys.length → (∀ i x y, PairAt xs ys i x y → Alike x y) →
      Alike (list xs) (list ys)

theorem alike_lists_iff {xs ys : List Value} : (list xs).Alike (list ys) ↔
    xs.length = ys.length ∧ ∀ i x y, PairAt xs ys i x y → x.Alike y := by
  constructor
  · rintro (⟨c, hc, -⟩ | ⟨hlen, h⟩)
    · cases hc
    · exact ⟨hlen, h⟩
  · rintro ⟨hlen, h⟩
    exact .lists hlen h

theorem alike_atoms_iff {a b : Value} (hab : ∀ xs ys, a = list xs → b ≠ list ys) :
    a.Alike b ↔ a.SameContent b := by
  constructor
  · rintro (h | _)
    · exact h
    · exact absurd rfl (hab _ _ rfl)
  · exact .atoms

/-- Nothing alien is like anything. -/
theorem Alike.not_alien {a b : Value} (h : a.Alike b) : ¬ a.Alien ∧ ¬ b.Alien := by
  rcases h with ⟨c, ha, hb⟩ | _
  · exact ⟨variant_isOk_iff.1 ⟨_, variant_of_content? ha⟩,
      variant_isOk_iff.1 ⟨_, variant_of_content? hb⟩⟩
  · exact ⟨not_false, not_false⟩

theorem Alike.symm {a b : Value} (h : a.Alike b) : b.Alike a := by
  induction h with
  | atoms h => exact .atoms (sameContent_comm.1 h)
  | lists hlen _ ih => exact .lists hlen.symm fun i x y hxy => ih i y x ⟨hxy.2, hxy.1⟩

theorem Alike.trans {a b c : Value} (h : a.Alike b) : b.Alike c → a.Alike c := by
  induction h generalizing c with
  | @atoms a b hab =>
    rintro (hbc | _)
    · exact .atoms (hab.trans hbc)
    · obtain ⟨d, -, hd⟩ := hab; cases hd
  | @lists xs ys hlen _ ih =>
    rintro (⟨d, hd, -⟩ | ⟨hlen', h'⟩)
    · cases hd
    · next zs =>
      refine .lists (hlen.trans hlen') ?_
      rintro i x z ⟨hx, hz⟩
      obtain ⟨y, hxy⟩ := pairAt_of_left hlen hx
      exact ih i x y hxy (h' i y z ⟨hxy.2, hz⟩)

/-- Alike values have the same positions. -/
theorem Alike.within {a b : Value} (h : a.Alike b) : ∀ {n}, a.Within n → b.Within n := by
  induction h with
  | @atoms a b hab =>
    intro n _
    obtain ⟨c, -, hc⟩ := hab
    refine within_of_not_list (fun ys hb => ?_) n
    subst hb; cases hc
  | @lists xs ys hlen _ ih =>
    intro n hn
    refine within_list.2 ?_
    intro y hy
    obtain ⟨i, hi⟩ := List.mem_iff_getElem?.1 hy
    obtain ⟨x, hxy⟩ := pairAt_of_right hlen hi
    obtain ⟨hpos, hw⟩ := within_list.1 hn x (List.mem_of_getElem? hxy.1)
    exact ⟨hpos, ih i x y hxy hw⟩

/-! ## Equality is alikeness within the limit -/

/-- Equal values are no aliens, and neither lies too deep. -/
theorem equalAt_true_guards {limit depth : Nat} (hl : limit ≤ stackLevels) {a b : Value}
    (h : a.equalAt limit depth b = .ok true) : depth ≤ limit ∧ ¬ a.Alien ∧ ¬ b.Alien := by
  have hdec := verdict_true_iff.1 (h ▸ verdict_equalAt hl a depth b)
  have hd : depth ≤ limit := by
    by_contra hd
    exact hdec [] _ (aligned_nil a b) (.tooDeep (Nat.lt_of_not_le hd))
  have ha : ¬ a.Alien := fun ha => hdec [] _ (aligned_nil a b) (.left hd rfl ha)
  exact ⟨hd, ha, fun hb => hdec [] _ (aligned_nil a b) (.right hd rfl ha rfl hb)⟩

theorem sameContent_of_equalAt {limit depth : Nat} (hl : limit ≤ stackLevels) {a b : Value}
    (hab : ∀ xs ys, a = list xs → b ≠ list ys) (h : a.equalAt limit depth b = .ok true) :
    a.SameContent b := by
  obtain ⟨hd, ha, hb⟩ := equalAt_true_guards hl h
  obtain ⟨r, he, hr⟩ := equalAt_atoms hd (Nat.le_trans hd hl) ha hb hab
  rw [he, Except.ok.injEq] at h
  exact hr.1 h

theorem elements_of_equalAt {limit depth : Nat} (hl : limit ≤ stackLevels) {xs ys : List Value}
    (h : (list xs).equalAt limit depth (list ys) = .ok true) : xs.length = ys.length ∧
      ∀ i x y, PairAt xs ys i x y → x.equalAt limit (depth + 1) y = .ok true := by
  have hd := (equalAt_true_guards hl h).1
  rw [equalAt_lists hd (Nat.le_trans hd hl)] at h
  split at h
  · next hlen => exact ⟨hlen, (equalAllAt_eq_true_iff hlen).1 h⟩
  · cases h

/-- Equal values are alike, and nest within the limit. -/
theorem alike_of_equalAt {limit : Nat} (hl : limit ≤ stackLevels) (a : Value) : ∀ depth b,
    a.equalAt limit depth b = .ok true → a.Alike b ∧ a.Within (limit - depth) := by
  induction a using Value.induction with
  | atom a hatom =>
    intro depth b h
    have hab : ∀ xs ys, a = list xs → b ≠ list ys := fun xs _ h => absurd h (hatom xs)
    exact ⟨.atoms (sameContent_of_equalAt hl hab h), within_of_not_list hatom _⟩
  | node xs ih =>
    intro depth b h
    by_cases hys : ∃ ys, b = list ys
    · obtain ⟨ys, rfl⟩ := hys
      obtain ⟨hlen, helem⟩ := elements_of_equalAt hl h
      have hix {i x y} (hxy : PairAt xs ys i x y) :=
        ih x (List.mem_of_getElem? hxy.1) (depth + 1) y (helem i x y hxy)
      refine ⟨.lists hlen fun i x y hxy => (hix hxy).1, within_list.2 ?_⟩
      intro x hx
      obtain ⟨i, hi⟩ := List.mem_iff_getElem?.1 hx
      obtain ⟨y, hxy⟩ := pairAt_of_left hlen hi
      have hd := (equalAt_true_guards hl (helem i x y hxy)).1
      exact ⟨Nat.sub_pos_of_lt hd, by rw [Nat.sub_sub]; exact (hix hxy).2⟩
    · obtain ⟨c, hc, -⟩ := sameContent_of_equalAt hl (fun _ ys _ h => hys ⟨ys, h⟩) h
      cases hc

/-- Alike values are equal as far as the limit and the stack reach. -/
theorem equalAt_of_alike {limit : Nat} {a b : Value} (h : a.Alike b) : ∀ depth, depth ≤ limit →
    depth ≤ stackLevels → a.Within (limit - depth) → a.Within (stackLevels - depth) →
    a.equalAt limit depth b = .ok true := by
  induction h with
  | @atoms a b hab =>
    intro depth hd hs _ _
    obtain ⟨ha, hb⟩ := (Alike.atoms hab).not_alien
    have hne : ∀ xs ys, a = list xs → b ≠ list ys := by
      rintro xs ys rfl
      obtain ⟨c, hc, -⟩ := hab
      cases hc
    obtain ⟨r, he, hr⟩ := equalAt_atoms hd hs ha hb hne
    rw [he, hr.2 hab]
  | @lists xs ys hlen _ ih =>
    intro depth hd hs hw hws
    rw [equalAt_lists hd hs, if_pos hlen]
    refine (equalAllAt_eq_true_iff hlen).2 ?_
    intro i x y hxy
    have hx := List.mem_of_getElem? hxy.1
    obtain ⟨hpos, hwx⟩ := within_list.1 hw x hx
    obtain ⟨hpos', hwx'⟩ := within_list.1 hws x hx
    rw [Nat.sub_sub] at hwx hwx'
    exact ih i x y hxy (depth + 1) (Nat.lt_of_sub_pos hpos) (Nat.lt_of_sub_pos hpos') hwx hwx'

/-- **Two values are equal just if they are alike and nest within the limit.** -/
theorem equal_true_iff {limit : Nat} (hl : limit ≤ stackLevels) {a b : Value} :
    a.equal limit b = .ok true ↔ a.Alike b ∧ a.Within limit := by
  constructor
  · exact alike_of_equalAt hl a 0 b
  · rintro ⟨h, hw⟩
    exact equalAt_of_alike h 0 (Nat.zero_le _) (Nat.zero_le _) hw (hw.mono hl)

/-! ## The laws -/

/-- What a value is like itself for: it is no `nan`, no function and no alien. -/
def SelfLike (v : Value) : Prop := v ≠ number .nan ∧ (∀ f, v ≠ function f) ∧ ¬ v.Alien

theorem selfLike_atom_iff {a : Value} (ha : ∀ xs, a ≠ list xs) :
    a.SameContent a ↔ a.SelfLike := by
  cases a with
  | number x =>
    rw [sameContent_numbers, Double.equal_iff]
    simp only [and_self, ← Option.isSome_iff_exists, Double.value?_isSome]
    simp [SelfLike, Alien]
  | integer n => simp [SameContent, SelfLike, Alien, content?]
  | list xs => exact absurd rfl (ha xs)
  | _ => simp [SameContent, SelfLike, Alien, content?]

theorem alike_self_iff (a : Value) : a.Alike a ↔ ∀ p x, a.at? p = some x → x.SelfLike := by
  induction a using Value.induction with
  | atom a ha =>
    rw [alike_atoms_iff fun xs _ h => absurd h (ha xs), selfLike_atom_iff ha,
      forall_positions_atom (P := fun _ x => x.SelfLike) ha]
  | node xs ih =>
    have hself : (list xs).SelfLike := by simp [SelfLike, Alien]
    rw [alike_lists_iff, and_iff_right rfl,
      forall_positions_list (P := fun _ x => x.SelfLike), and_iff_right hself]
    constructor
    · intro h x hx
      obtain ⟨i, hi⟩ := List.mem_iff_getElem?.1 hx
      exact (ih x hx).1 (h i x x ⟨hi, hi⟩)
    · rintro h i x y ⟨hx, hy⟩
      cases hx.symm.trans hy
      have hx := List.mem_of_getElem? hx
      exact (ih x hx).2 (h x hx)

theorem Differ.symm {a b : Value} (h : a.Differ b) : b.Differ a := by
  rcases h with ⟨hv, hw, hne⟩ | ⟨hv, hw, hl, hf, h⟩ | _ | h
  · exact .variants hw hv hne.symm
  · exact .atoms hw hv hl hf fun h' => h (sameContent_comm.1 h')
  · exact .functions _ _
  · exact .lengths h.symm

theorem Aligned.symm {a b : Layout} {p : Path} (h : Aligned a b p) : Aligned b a p :=
  ⟨h.2.1, h.1, fun q hq hne =>
    let ⟨xs, ys, hx, hy, hlen⟩ := h.2.2 q hq hne
    ⟨ys, xs, hy, hx, hlen.symm⟩⟩

/-- A position that decides one direction decides the other one alike. -/
theorem Decides.symm {limit depth : Nat} {a b : Layout} {p : Path} {o : Except Error Bool}
    (hal : Aligned a b p) (h : Decides limit depth a b p o) :
    ∃ o', Decides limit depth b a p o' ∧ o'.mapError Error.kind = o.mapError Error.kind := by
  rcases h with h | ⟨h, hx, hax⟩ | ⟨h, hx, hax, hy, hay⟩ | ⟨h, hx, hax, hy, hay, hxy⟩
  · exact ⟨_, .tooDeep h, rfl⟩
  · obtain ⟨y, hy⟩ := Option.isSome_iff_exists.1 hal.2.1
    by_cases hay : y.Alien
    · exact ⟨_, .left h hy hay, rfl⟩
    · exact ⟨_, .right h hy hay hx hax, rfl⟩
  · exact ⟨_, .left h hy hay, rfl⟩
  · exact ⟨_, .differ h hy hay hx hax hxy.symm, rfl⟩

/-- The two directions of a comparison have verdicts of one class. -/
theorem Verdict.symm {limit depth : Nat} {a b : Layout} {o : Except Error Bool}
    (h : Verdict limit depth a b o) :
    ∃ o', Verdict limit depth b a o' ∧ o'.mapError Error.kind = o.mapError Error.kind := by
  rcases h with ⟨p, hal, hdec, hmin⟩ | ⟨rfl, hnone⟩
  · obtain ⟨o', hdec', hk⟩ := hdec.symm hal
    refine ⟨o', Or.inl ⟨p, hal.symm, hdec', fun q o₁ hq hq' => ?_⟩, hk⟩
    obtain ⟨o₂, hq₂, -⟩ := hq'.symm hq
    exact hmin q o₂ hq.symm hq₂
  · refine ⟨_, Or.inr ⟨rfl, fun p o hal hdec => ?_⟩, rfl⟩
    obtain ⟨o', hdec', -⟩ := hdec.symm hal
    exact hnone p o' hal.symm hdec'

theorem SameHead.selfLike {x y : Value} (h : x.SameHead y) (hx : x.SelfLike) : y.SelfLike := by
  rcases h with _ | h
  · exact hx
  · exact ⟨by simp, by simp, not_false⟩

theorem equal_self_iff {limit : Nat} (hl : limit ≤ stackLevels) (a : Value) :
    a.equal limit a = .ok true ↔
      ∀ p x, a.at? p = some x → p.length ≤ limit ∧ x.SelfLike := by
  rw [equal_true_iff hl, alike_self_iff]
  constructor
  · rintro ⟨hself, hw⟩ p x hx
    exact ⟨hw p x hx, hself p x hx⟩
  · intro h
    exact ⟨fun p x hx => (h p x hx).2, fun p x hx => (h p x hx).1⟩

end Value

/-- **Equality is symmetric** up to the text of an error, **transitive**, and
    **reflexive** on what holds nothing unequal to itself and nests within the limit.
    Lists that contain themselves are allowed anywhere; any stage beyond the limit stands
    for them. -/
theorem equal_laws {limit n : Nat} (hl : limit ≤ stackLevels) (hn : limit < n) :
    (∀ a b : Unfolding, ((a.stage n).equal limit (b.stage n)).mapError Error.kind =
      ((b.stage n).equal limit (a.stage n)).mapError Error.kind) ∧
    (∀ a b c : Unfolding, (a.stage n).equal limit (b.stage n) = .ok true →
      (b.stage n).equal limit (c.stage n) = .ok true →
      (a.stage n).equal limit (c.stage n) = .ok true) ∧
    ∀ a : Unfolding, (a.stage n).equal limit (a.stage n) = .ok true ↔
      ∀ p x, a.at? p = some x → p.length ≤ limit ∧
        x ≠ .number .nan ∧ (∀ f, x ≠ .function f) ∧ ¬ x.Alien := by
  refine ⟨?_, ?_, ?_⟩
  · intro a b
    obtain ⟨o, ho, hk⟩ := (Value.verdict_equalAt hl (a.stage n) 0 (b.stage n)).symm
    have := Value.verdict_unique ho (Value.verdict_equalAt hl (b.stage n) 0 (a.stage n))
    rw [Value.equal, Value.equal, ← hk, this]
  · intro a b c hab hbc
    rw [Value.equal_true_iff hl] at *
    exact ⟨hab.1.trans hbc.1, hab.2⟩
  · intro a
    have ha := (a.agree_stage n).mono hn
    rw [Value.equal_self_iff hl]
    constructor
    · exact ha.symm.forall_within (fun h => h.selfLike) fun hx => a.at?_take hx
    · exact ha.forall_within (fun h => h.selfLike) fun hx => Value.at?_take hx

/-- The laws at work: foreign objects on both sides, an integer and a double of one value,
    and a list that contains itself. -/
theorem equal_laws_mixed : 500 ≤ stackLevels ∧ 500 < 501 ∧
    (((Value.list [.foreign "set"]).equal 500 (.list [.foreign "object"])).mapError Error.kind =
      ((Value.list [.foreign "object"]).equal 500 (.list [.foreign "set"])).mapError Error.kind) ∧
    ((Value.integer 1).equal 500 (.number (.ofBits 0x3ff0000000000000)) = .ok true ∧
      (Value.number (.ofBits 0x3ff0000000000000)).equal 500 (.integer 1) = .ok true ∧
      (Value.integer 1).equal 500 (.integer 1) = .ok true) ∧
    ((Unfolding.cycle [] []).stage 501).equal 500 ((Unfolding.cycle [] []).stage 501) ≠
      .ok true := by
  obtain ⟨symmetry, transitivity, reflexivity⟩ := @equal_laws 500 501 (by decide) (by decide)
  have h₁ : (Value.integer 1).equal 500 (.number (.ofBits 0x3ff0000000000000)) = .ok true := by
    decide +kernel
  have h₂ : (Value.number (.ofBits 0x3ff0000000000000)).equal 500 (.integer 1) = .ok true := by
    decide +kernel
  refine ⟨by decide, by decide, ?_, ⟨h₁, h₂, ?_⟩, fun h => ?_⟩
  · exact symmetry (.ofValue (.list [.foreign "set"])) (.ofValue (.list [.foreign "object"]))
  · exact transitivity (.ofValue (.integer 1)) (.ofValue (.number (.ofBits 0x3ff0000000000000)))
      (.ofValue (.integer 1)) h₁ h₂
  · have hdeep : ((Unfolding.cycle [] []).at? (List.replicate 501 0)).isSome := by decide +kernel
    obtain ⟨x, hx⟩ := Option.isSome_iff_exists.1 hdeep
    have hlen := ((reflexivity _).1 h _ x hx).1
    rw [List.length_replicate] at hlen
    omega

end LispCore

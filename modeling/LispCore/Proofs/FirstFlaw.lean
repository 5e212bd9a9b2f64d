/-
  LispCore — where rendering fails.

  Rendering stops at the first flaw that it meets.  Said without the walk:

  * `Value.Flaw`: a position that no text can have, and the error for it: the position lies
    too deep, whatever it holds, or it holds no value;
  * `Value.Assesses`: a text where there is no flaw, and the error of the first one where
    there is;
  * `Value.assesses_render`: that is what rendering answers;
  * `Unfolding.text_of_first_flaw`: the same of whole values, which may contain themselves.
-/
import LispCore.Proofs.DepthGuard
import LispCore.Proofs.FirstPosition

namespace LispCore

namespace Value

/-- What is wrong at a position of a value that lies inside `depth` lists. -/
inductive Flaw (limit depth : ℕ) (a : Layout) (p : Path) : Error → Prop
  /-- The position lies too deep, whatever it holds. -/
  | tooDeep {x} : a p = some x → limit < depth + p.length →
      Flaw limit depth a p (.tooDeep .rendering limit)
  /-- It holds no value. -/
  | noValue {x} : a p = some x → depth + p.length ≤ limit → x.Alien →
      Flaw limit depth a p (.unprintable x.typeName)

/-- What rendering ought to answer: a text where there is no flaw, and the error of the first
    one where there is. -/
inductive Assesses (limit depth : ℕ) (a : Layout) : Except Error String → Prop
  | sound {t} : (∀ p e, ¬ Flaw limit depth a p e) → Assesses limit depth a (.ok t)
  | flawed {p e} : IsFirst (Flaw limit depth a) p e → Assesses limit depth a (.error e)

section
variable {limit depth : ℕ} {a b : Layout} {p : Path} {e e' : Error}

/-! ## Flaws -/

theorem Flaw.unique (h : Flaw limit depth a p e) (h' : Flaw limit depth a p e') : e = e' := by
  cases h with
  | tooDeep _ hd =>
    cases h' with
    | tooDeep => rfl
    | noValue _ hd' => exact absurd hd (Nat.not_lt.2 hd')
  | noValue hx hd _ =>
    cases h' with
    | tooDeep _ hd' => exact absurd hd' (Nat.not_lt.2 hd)
    | noValue hx' => rw [Option.some.inj (hx.symm.trans hx')]

/-- What the error for a flaw says. -/
theorem Flaw.reason {x : Value} (h : Flaw limit depth a p e) (hx : a p = some x) :
    limit < depth + p.length ∧ e.kind = .recursion ∨
      depth + p.length ≤ limit ∧ x.Alien ∧ e.kind = .type ∧
        e.message = "Cannot print " ++ x.typeName := by
  cases h with
  | tooDeep _ hd => exact Or.inl ⟨hd, rfl⟩
  | noValue hx' hd ha =>
    cases hx.symm.trans hx'
    exact Or.inr ⟨hd, ha, rfl, rfl⟩

/-- There is no flaw where all positions lie within the limit and hold values. -/
theorem forall_not_flaw_iff : (∀ p e, ¬ Flaw limit depth a p e) ↔
    ∀ p x, a p = some x → depth + p.length ≤ limit ∧ ¬ x.Alien := by
  constructor
  · intro h p x hx
    have hd : depth + p.length ≤ limit := Nat.not_lt.1 fun hd => h p _ (.tooDeep hx hd)
    exact ⟨hd, fun ha => h p _ (.noValue hx hd ha)⟩
  · rintro h p e (⟨hx, hd⟩ | ⟨hx, -, ha⟩)
    · exact absurd hd (Nat.not_lt.2 (h p _ hx).1)
    · exact (h p _ hx).2 ha

/-- A position below an index has the flaws in the list that it has in the element there. -/
theorem flaw_cons {xs : List Value} {i : ℕ} {x : Value} (h : xs[i]? = some x) :
    Flaw limit depth (list xs).at? (i :: p) e ↔ Flaw limit (depth + 1) x.at? p e := by
  have hd : depth + (i :: p).length = depth + 1 + p.length := by
    rw [List.length_cons]; omega
  constructor
  · rintro (⟨hx, h'⟩ | ⟨hx, h', ha⟩) <;> rw [hd] at h' <;> rw [at?_list_cons h] at hx
    · exact .tooDeep hx h'
    · exact .noValue hx h' ha
  · rintro (⟨hx, h'⟩ | ⟨hx, h', ha⟩) <;> rw [← hd] at h' <;> rw [← at?_list_cons h] at hx
    · exact .tooDeep hx h'
    · exact .noValue hx h' ha

/-- A list within the limit has no flaw of its own. -/
theorem not_flaw_list_nil (hd : depth ≤ limit) (xs : List Value) :
    ¬ Flaw limit depth (list xs).at? [] e := by
  rintro (⟨-, h⟩ | ⟨hx, -, ha⟩)
  · exact absurd hd (Nat.not_le.2 h)
  · cases hx; exact ha

/-- A flaw of the value itself comes before all others. -/
theorem assesses_of_nil (h : Flaw limit depth a [] e) : Assesses limit depth a (.error e) :=
  .flawed (isFirst_nil h)

/-! ## What the assessment says -/

theorem Assesses.ok_iff {r : Except Error String} (h : Assesses limit depth a r) :
    (∃ t, r = .ok t) ↔ ∀ p e, ¬ Flaw limit depth a p e := by
  cases h with
  | sound hnone => exact iff_of_true ⟨_, rfl⟩ hnone
  | @flawed p e hfirst =>
    exact iff_of_false (by simp) fun hnone => hnone p e hfirst.answers

theorem Assesses.error_iff {r : Except Error String} (h : Assesses limit depth a r) :
    r = .error e ↔ ∃ p, IsFirst (Flaw limit depth a) p e := by
  cases h with
  | sound hnone => exact iff_of_false (by simp) fun ⟨p, hp⟩ => hnone p e hp.answers
  | @flawed p e' hfirst =>
    constructor
    · intro he
      cases he
      exact ⟨p, hfirst⟩
    · rintro ⟨q, hq⟩
      rw [(hfirst.unique hq fun _ _ _ => Flaw.unique).2]

/-- A position too far below the limit lies below one that is a flaw for that. -/
theorem cutAt_flaw (ha : ∀ {p y}, a p = some y → ∀ k, ∃ z, a (p.take k) = some z) :
    CutAt (limit + 1) (Flaw limit 0 a) := by
  rintro p e h hlt
  obtain ⟨x, hx⟩ : ∃ x, a p = some x := by rcases h with ⟨hx, -⟩ | ⟨hx, -⟩ <;> exact ⟨_, hx⟩
  obtain ⟨z, hz⟩ := ha hx (limit + 1)
  refine ⟨_, .tooDeep hz ?_⟩
  rw [List.length_take_of_le (Nat.le_of_lt hlt)]
  omega

theorem Flaw.of_agreeTo {n : ℕ} (hab : AgreeTo n a b) (hp : p.length ≤ n)
    (h : Flaw limit depth a p e) : Flaw limit depth b p e := by
  rcases h with ⟨hx, hd⟩ | ⟨hx, hd, hax⟩
  · obtain ⟨y, hy, -⟩ := hab.exists_sameHead hp hx
    exact .tooDeep hy hd
  · obtain ⟨y, hy, hxy⟩ := hab.exists_sameHead hp hx
    rw [hxy.typeName_eq]
    exact .noValue hy hd (hxy.alien_iff.1 hax)

end

/-! ## Rendering -/

section
variable {mode : Mode} {limit depth : ℕ} (hl : limit ≤ stackLevels) (hd : depth ≤ limit)
include hl hd

theorem assesses_atom {v : Value} (hv : ∀ xs, v ≠ list xs) :
    Assesses limit depth v.at? (v.render mode limit depth) := by
  rw [render_atom hd (Nat.le_trans hd hl) hv]
  by_cases ha : v.Alien
  · rw [text_alien mode ha]
    exact assesses_of_nil (.noValue rfl hd ha)
  · obtain ⟨t, ht⟩ := exists_text_atom mode hv ha
    rw [ht]
    refine .sound (forall_not_flaw_iff.2 ?_)
    exact (forall_positions_atom (P := fun k x => depth + k ≤ limit ∧ ¬ x.Alien) hv).2 ⟨hd, ha⟩

/-- The first flaw in a list is that of the first element that has no text. -/
theorem assesses_list {xs : List Value}
    (ih : ∀ x ∈ xs, Assesses limit (depth + 1) x.at? (x.render mode limit (depth + 1))) :
    Assesses limit depth (list xs).at? ((list xs).render mode limit depth) := by
  have hnil (e : Error) : ¬ Flaw limit depth (list xs).at? [] e := not_flaw_list_nil hd xs
  -- no flaw lies in an element that has a text
  have hsound {i x} (hx : xs[i]? = some x) (ht : ∃ t, x.render mode limit (depth + 1) = .ok t)
      (q : Path) (e : Error) : ¬ Flaw limit depth (list xs).at? (i :: q) e := by
    rw [flaw_cons hx]
    exact (ih x (List.mem_of_getElem? hx)).ok_iff.1 ht q e
  -- nor below an index without an element
  have hindex {i q e} (h : Flaw limit depth (list xs).at? (i :: q) e) : ∃ x, xs[i]? = some x := by
    rcases h with ⟨hw, -⟩ | ⟨hw, -⟩ <;> obtain ⟨ys, x, hys, hx, -⟩ := at?_cons_eq_some hw <;>
      cases hys <;> exact ⟨x, hx⟩
  rw [render_list hd (Nat.le_trans hd hl)]
  rcases renderAll_cases mode limit (depth + 1) xs with
    ⟨⟨ts, hts⟩, hall⟩ | ⟨i, x, e, hi, hx, he, hbefore⟩
  · rw [hts]
    refine .sound fun p e h => ?_
    cases p with
    | nil => exact hnil e h
    | cons i q =>
      obtain ⟨x, hx⟩ := hindex h
      exact hsound hx (hall x (List.mem_of_getElem? hx)) q e h
  · rw [he]
    obtain ⟨p, hp⟩ := (ih x (List.mem_of_getElem? hi)).error_iff.1 hx
    refine .flawed (isFirst_cons hnil (fun j hj q e' h => ?_) (fun q e' => flaw_cons hi) hp)
    obtain ⟨y, hy⟩ := hindex h
    exact hsound hy (hbefore j hj y hy) q e' h

omit hd in
/-- **Rendering answers the assessment**, whatever the depth at which it starts. -/
theorem assesses_render (mode : Mode) (v : Value) : ∀ depth,
    Assesses limit depth v.at? (v.render mode limit depth) := by
  have htooDeep {v : Value} {depth : ℕ} (hd : limit < depth) :
      Assesses limit depth v.at? (v.render mode limit depth) := by
    rw [render_tooDeep hd]
    exact assesses_of_nil (.tooDeep rfl hd)
  induction v using Value.induction with
  | atom v hv =>
    intro depth
    rcases Nat.lt_or_ge limit depth with hd | hd
    · exact htooDeep hd
    · exact assesses_atom hl hd hv
  | node xs ih =>
    intro depth
    rcases Nat.lt_or_ge limit depth with hd | hd
    · exact htooDeep hd
    · exact assesses_list hl hd fun x hx => ih x hx (depth + 1)

end

theorem Assesses.of_agreeTo {limit : ℕ} {a b : Layout} {r : Except Error String}
    (ha : ∀ {p y}, a p = some y → ∀ k, ∃ z, a (p.take k) = some z)
    (hb : ∀ {p y}, b p = some y → ∀ k, ∃ z, b (p.take k) = some z)
    (hab : AgreeTo (limit + 1) a b) (h : Assesses limit 0 a r) : Assesses limit 0 b r := by
  have hiff (p : Path) (e : Error) (hp : p.length ≤ limit + 1) :
      Flaw limit 0 a p e ↔ Flaw limit 0 b p e :=
    ⟨Flaw.of_agreeTo hab hp, Flaw.of_agreeTo hab.symm hp⟩
  cases h with
  | sound hnone => exact .sound (forall_not_of_cut (cutAt_flaw hb) hiff hnone)
  | flawed hfirst => exact .flawed (hfirst.of_cut (cutAt_flaw ha) (cutAt_flaw hb) hiff)

end Value

namespace Unfolding

open Value

theorem assesses_stage {limit n : ℕ} (hl : limit ≤ stackLevels) (hn : limit ≤ n) (a : Unfolding)
    (mode : Mode) : Assesses limit 0 a.at? ((a.stage n).text mode limit) := by
  have hstage : (a.stage n).text mode limit = (a.stage (limit + 1)).text mode limit :=
    render_congr mode (agreeFrom_stage (.refl a.at?) hn (Nat.le_succ limit))
  rw [hstage]
  exact (assesses_render hl mode (a.stage (limit + 1)) 0).of_agreeTo Value.at?_take
    a.at?_take (a.agree_stage (limit + 1)).symm

/-- **Rendering fails for the first flaw, and only for a flaw.**  A value has a text just if
    every position lies inside at most `limit` lists and holds a value; otherwise the error is
    that of the first position at which this fails, which lies too deep, whatever it holds, or
    else holds no value.  So what nests just as deep as the limit has a text, and what nests
    one list deeper has none. -/
theorem text_of_first_flaw {limit n : ℕ} (hl : limit ≤ stackLevels) (hn : limit ≤ n)
    (a : Unfolding) (mode : Mode) :
    ((∃ t, (a.stage n).text mode limit = .ok t) ↔
      ∀ p x, a.at? p = some x → p.length ≤ limit ∧ ¬ x.Alien) ∧
    (∀ e, (a.stage n).text mode limit = .error e ↔ ∃ p, IsFirst (Flaw limit 0 a.at?) p e) ∧
    (∀ p x e, Flaw limit 0 a.at? p e → a.at? p = some x →
      limit < p.length ∧ e.kind = .recursion ∨
        p.length ≤ limit ∧ x.Alien ∧ e.kind = .type ∧
          e.message = "Cannot print " ++ x.typeName) ∧
    ((∀ p x, a.at? p = some x → ¬ x.Alien) →
      ((∀ p x, a.at? p = some x → p.length ≤ limit) → ∃ t, (a.stage n).text mode limit = .ok t) ∧
      ((∃ p x, a.at? p = some x ∧ p.length = limit + 1) →
        (a.stage n).text mode limit = .error (.tooDeep .rendering limit))) := by
  have h := a.assesses_stage hl hn mode
  have hok : (∃ t, (a.stage n).text mode limit = .ok t) ↔
      ∀ p x, a.at? p = some x → p.length ≤ limit ∧ ¬ x.Alien := by
    rw [h.ok_iff, forall_not_flaw_iff]
    simp only [Nat.zero_add]
  refine ⟨hok, fun e => h.error_iff, fun p x e hflaw hx => ?_, fun hvalues => ⟨fun hw => ?_, ?_⟩⟩
  · have := hflaw.reason hx
    rwa [Nat.zero_add] at this
  · exact hok.2 fun p x hx => ⟨hw p x hx, hvalues p x hx⟩
  · rintro ⟨p, x, hx, hlen⟩
    cases hr : (a.stage n).text mode limit with
    | ok t =>
      have := (hok.1 ⟨t, hr⟩ p x hx).1
      omega
    | error e =>
      -- there are only values, so that the flaw can be nothing but the depth
      obtain ⟨q, hq⟩ := h.error_iff.1 hr
      cases hq.answers with
      | tooDeep => rfl
      | noValue hy _ ha => exact absurd ha (hvalues q _ hy)

/-- A list of itself and a foreign object: under a limit of two, the innermost list that is
    entered begins with a position that lies too deep, and that comes before the objects. -/
theorem text_of_first_flaw_cycle : 2 ≤ stackLevels ∧ 2 ≤ 2 ∧
    ((cycle [] [ofValue (.foreign "set")]).stage 2).text .display 2 =
      .error (.tooDeep .rendering 2) ∧
    ∃ p, IsFirst (Flaw 2 0 (cycle [] [ofValue (.foreign "set")]).at?) p
      (.tooDeep .rendering 2) :=
  ⟨by decide, by decide, rfl, ((text_of_first_flaw (by decide) (Nat.le_refl 2)
    (cycle [] [ofValue (.foreign "set")]) .display).2.1 _).1 rfl⟩

end Unfolding

end LispCore

/-
  LispCore — replacing atoms.

  * `Value.mapAtoms f`: a value with every atom replaced by what `f` makes of it;
  * `Value.MakesAtoms f`: what `f` makes of an atom is no list;
  * `Value.at?_mapAtoms`, `AgreeTo.mapAtoms`: the replacement is made at every position;
  * `Value.mapAtoms_idem`, `Value.render_mapAtoms`, `Value.equalAt_mapAtoms`: a second
    replacement, rendering and comparing take the atoms one by one, so that they treat
    the replaced value as they treat replaced atoms.
-/
import LispCore.Proofs.Rendering
import LispCore.Proofs.Unfolding

namespace LispCore

namespace Value

mutual

/-- The value with `f` applied to everything in it that is no list. -/
def mapAtoms (f : Value → Value) : Value → Value
  | list xs => list (mapAtomsAll f xs)
  | v => f v

/-- The values with `f` applied to everything in them that is no list. -/
def mapAtomsAll (f : Value → Value) : List Value → List Value
  | [] => []
  | x :: xs => x.mapAtoms f :: mapAtomsAll f xs

end

variable {f : Value → Value}

theorem mapAtomsAll_eq (xs : List Value) : mapAtomsAll f xs = xs.map (mapAtoms f) := by
  induction xs with
  | nil => rfl
  | cons x xs ih => rw [mapAtomsAll, ih, List.map_cons]

theorem mapAtoms_list (xs : List Value) :
    (list xs).mapAtoms f = list (xs.map (mapAtoms f)) := by
  rw [mapAtoms, mapAtomsAll_eq]

theorem mapAtoms_atom {v : Value} (hv : ∀ xs, v ≠ list xs) : v.mapAtoms f = f v := by
  cases v with
  | list xs => exact absurd rfl (hv xs)
  | _ => rfl

/-- What `f` makes of an atom is no list. -/
def MakesAtoms (f : Value → Value) : Prop :=
  ∀ v, (∀ xs, v ≠ list xs) → ∀ xs, f v ≠ list xs

/-- Only lists become lists. -/
theorem not_list_mapAtoms (hf : MakesAtoms f) {v : Value} (hv : ∀ xs, v ≠ list xs)
    (xs : List Value) : v.mapAtoms f ≠ list xs := by
  rw [mapAtoms_atom hv]
  exact hf v hv xs

theorem mapAtoms_idem (hf : MakesAtoms f) (hff : ∀ v, f (f v) = f v) (v : Value) :
    (v.mapAtoms f).mapAtoms f = v.mapAtoms f := by
  induction v using Value.induction with
  | atom v hv => rw [mapAtoms_atom (not_list_mapAtoms hf hv), mapAtoms_atom hv, hff]
  | node xs ih =>
    rw [mapAtoms_list, mapAtoms_list, List.map_map]
    exact congrArg list (List.map_congr_left ih)

theorem element?_mapAtoms (hf : MakesAtoms f) (v : Value) (i : Nat) :
    (v.mapAtoms f).element? i = (v.element? i).map (mapAtoms f) := by
  by_cases hv : ∃ xs, v = list xs
  · obtain ⟨xs, rfl⟩ := hv
    rw [mapAtoms_list, element?, element?, List.getElem?_map]
  · have hv : ∀ xs, v ≠ list xs := fun xs h => hv ⟨xs, h⟩
    rw [element?_of_not_list hv, element?_of_not_list (not_list_mapAtoms hf hv)]
    rfl

/-- The replacement is made at every position, and no position comes or goes. -/
theorem at?_mapAtoms (hf : MakesAtoms f) (v : Value) (p : Path) :
    (v.mapAtoms f).at? p = (v.at? p).map (mapAtoms f) := by
  induction p generalizing v with
  | nil => rfl
  | cons i p ih =>
    rw [at?_cons, at?_cons, element?_mapAtoms hf]
    cases v.element? i with
    | none => rfl
    | some x => exact ih x

theorem SameHead.mapAtoms {x y : Value} (h : x.SameHead y) :
    (x.mapAtoms f).SameHead (y.mapAtoms f) := by
  cases h with
  | same v => exact .same _
  | lists hlen =>
    rw [mapAtoms_list, mapAtoms_list]
    exact .lists (by rw [List.length_map, List.length_map, hlen])

/-! ## Rendering -/

section
variable {mode mode' : Mode} {limit : Nat}

theorem renderAll_map {g : Value → Value} {depth : Nat} {xs : List Value}
    (h : ∀ x ∈ xs, (g x).render mode' limit depth = x.render mode limit depth) :
    renderAll mode' limit depth (xs.map g) = renderAll mode limit depth xs := by
  induction xs with
  | nil => rfl
  | cons x xs ih =>
    rw [List.map_cons, renderAll, renderAll, h x List.mem_cons_self,
      ih fun y hy => h y (List.mem_cons_of_mem x hy)]

/-- **If atoms keep their texts, so do all values.** -/
theorem render_mapAtoms (hf : MakesAtoms f)
    (htext : ∀ v, (∀ xs, v ≠ list xs) → (f v).text mode' 0 = v.text mode 0) (v : Value) :
    ∀ depth, (v.mapAtoms f).render mode' limit depth = v.render mode limit depth := by
  induction v using Value.induction with
  | atom v hv =>
    intro depth
    by_cases hd : depth ≤ limit ∧ depth ≤ stackLevels
    · rw [render_atom hd.1 hd.2 (not_list_mapAtoms hf hv), render_atom hd.1 hd.2 hv,
        mapAtoms_atom hv, htext v hv]
    · exact render_eq_of_not_le hd _ _
  | node xs ih =>
    intro depth
    rw [mapAtoms_list]
    by_cases hd : depth ≤ limit ∧ depth ≤ stackLevels
    · rw [render_list hd.1 hd.2, render_list hd.1 hd.2,
        renderAll_map fun x hx => ih x hx (depth + 1)]
    · exact render_eq_of_not_le hd _ _

end

/-! ## Comparing -/

theorem equalAllAt_map {limit depth : Nat} {g : Value → Value} {xs : List Value}
    (ys : List Value) (h : ∀ x ∈ xs, ∀ y,
      (g x).equalAt limit depth (g y) = x.equalAt limit depth y) :
    equalAllAt limit depth (xs.map g) (ys.map g) = equalAllAt limit depth xs ys := by
  induction xs generalizing ys with
  | nil => rfl
  | cons x xs ih =>
    cases ys with
    | nil => rfl
    | cons y ys =>
      rw [List.map_cons, List.map_cons, equalAllAt, equalAllAt, h x List.mem_cons_self,
        ih ys fun z hz => h z (List.mem_cons_of_mem x hz)]

theorem Resembles.mapAtoms (hres : ∀ v : Value, v.Resembles (f v)) (v : Value) :
    v.Resembles (v.mapAtoms f) := by
  cases v with
  | list xs =>
    rw [mapAtoms_list]
    exact ⟨fun h => h.elim (absurd · not_false) (absurd · not_false), rfl⟩
  | _ => exact hres _

/-- **If atoms become others that they resemble, all values compare as before.** -/
theorem equalAt_mapAtoms (hf : MakesAtoms f) (hres : ∀ v : Value, v.Resembles (f v)) {limit : Nat}
    (a : Value) : ∀ depth b,
      (a.mapAtoms f).equalAt limit depth (b.mapAtoms f) = a.equalAt limit depth b := by
  have heads {a b : Value} {depth : Nat} (hd : depth ≤ limit) (hs : depth ≤ stackLevels)
      (hab : (∀ xs, a ≠ list xs) ∨ ∀ ys, b ≠ list ys) :
      (a.mapAtoms f).equalAt limit depth (b.mapAtoms f) = a.equalAt limit depth b := by
    refine ((Resembles.mapAtoms hres a).equalAt_eq (.mapAtoms hres b) ?_ ?_ hd hs hd hs).symm
    · rintro xs ys rfl rfl
      exact hab.elim (fun h => h xs rfl) fun h => h ys rfl
    · intro xs ys hxs hys
      exact hab.elim (fun h => not_list_mapAtoms hf h xs hxs)
        fun h => not_list_mapAtoms hf h ys hys
  induction a using Value.induction with
  | atom a ha =>
    intro depth b
    by_cases hd : depth ≤ limit ∧ depth ≤ stackLevels
    · exact heads hd.1 hd.2 (Or.inl ha)
    · exact equalAt_eq_of_not_le hd _ _
  | node xs ih =>
    intro depth b
    by_cases hd : depth ≤ limit ∧ depth ≤ stackLevels
    · by_cases hb : ∃ ys, b = list ys
      · obtain ⟨ys, rfl⟩ := hb
        rw [mapAtoms_list, mapAtoms_list, equalAt_lists hd.1 hd.2, equalAt_lists hd.1 hd.2,
          List.length_map, List.length_map, equalAllAt_map ys fun x hx => ih x hx (depth + 1)]
      · exact heads hd.1 hd.2 (Or.inr fun ys hys => hb ⟨ys, hys⟩)
    · exact equalAt_eq_of_not_le hd _ _

end Value

theorem AgreeTo.mapAtoms {f : Value → Value} (hf : Value.MakesAtoms f) {n : Nat} {a b : Value}
    (h : AgreeTo n a.at? b.at?) : AgreeTo n (a.mapAtoms f).at? (b.mapAtoms f).at? := by
  intro p hp
  rw [Value.at?_mapAtoms hf, Value.at?_mapAtoms hf]
  have hhead := h p hp
  generalize a.at? p = x, b.at? p = y at hhead ⊢
  cases hhead with
  | some h => exact .some h.mapAtoms
  | none => exact .none

end LispCore

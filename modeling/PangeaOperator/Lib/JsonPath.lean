import PangeaOperator.Lib.Json

/-!
# Paths into JSON values

What stands at a path of member names, and the paths that a value cuts off: it has something other
than an object on the way there.
-/

namespace PangeaOperator

namespace Json

variable {ν : Type}

def IsObject (v : Json ν) : Prop := ∃ ms, v = .obj ms

/-- The value, unless it is an object. -/
def leaf : Json ν → Option (Json ν)
  | .obj _ => none
  | v => some v

theorem leaf_eq_none_iff {v : Json ν} : v.leaf = none ↔ v.IsObject := by
  cases v <;> simp [leaf, IsObject]

theorem leaf_of_not_isObject {v : Json ν} (h : ¬ v.IsObject) : v.leaf = some v := by
  cases v <;> first | rfl | exact absurd ⟨_, rfl⟩ h

theorem leaf_eq_some_iff {v w : Json ν} : v.leaf = some w ↔ v = w ∧ ¬ w.IsObject := by
  by_cases h : v.IsObject
  · rw [leaf_eq_none_iff.mpr h]
    constructor
    · intro hnone
      simp at hnone
    · rintro ⟨rfl, hw⟩
      exact absurd h hw
  · rw [leaf_of_not_isObject h, Option.some_inj]
    constructor
    · rintro rfl
      exact ⟨rfl, h⟩
    · exact And.left

def atPath (v : Json ν) : List String → Option (Json ν)
  | [] => some v
  | k :: p => (v.get? k).bind (fun w => w.atPath p)

/-- The path leads through something that is no object. -/
def cutsOff (v : Json ν) : List String → Bool
  | [] => false
  | k :: p => v.leaf.isSome || (v.get? k).any (fun w => w.cutsOff p)

theorem get?_of_not_isObject {v : Json ν} (h : ¬ v.IsObject) (k : String) : v.get? k = none := by
  cases v <;> first | rfl | exact absurd ⟨_, rfl⟩ h

theorem atPath_of_cutsOff {v : Json ν} {p : List String} (h : v.cutsOff p = true) :
    v.atPath p = none := by
  induction p generalizing v with
  | nil => simp [cutsOff] at h
  | cons k p ih =>
    rw [atPath]
    by_cases hv : v.IsObject
    · rw [cutsOff, leaf_eq_none_iff.mpr hv, Option.isSome_none, Bool.false_or,
        Option.any_eq_true] at h
      obtain ⟨w, hw, hcuts⟩ := h
      rw [hw, Option.bind_some, ih hcuts]
    · rw [get?_of_not_isObject hv, Option.bind_none]

theorem cutsOff_iff {v : Json ν} {p : List String} : v.cutsOff p = true ↔
    ∃ q r w, p = q ++ r ∧ r ≠ [] ∧ v.atPath q = some w ∧ ¬ w.IsObject := by
  induction p generalizing v with
  | nil =>
    simp only [cutsOff, Bool.false_eq_true, false_iff]
    rintro ⟨q, r, w, hp, hr, -⟩
    exact hr (List.append_eq_nil_iff.mp hp.symm).2
  | cons k p ih =>
    rw [cutsOff, Bool.or_eq_true, Option.any_eq_true, Option.isSome_iff_ne_none, Ne,
      leaf_eq_none_iff]
    constructor
    · rintro (hv | ⟨w, hw, hcuts⟩)
      · exact ⟨[], k :: p, v, rfl, List.cons_ne_nil _ _, rfl, hv⟩
      · obtain ⟨q, r, x, rfl, hr, hx, hobject⟩ := ih.mp hcuts
        exact ⟨k :: q, r, x, rfl, hr, by rw [atPath, hw, Option.bind_some, hx], hobject⟩
    · rintro ⟨q, r, x, hp, hr, hx, hobject⟩
      cases q with
      | nil =>
        rw [atPath, Option.some_inj] at hx
        exact Or.inl (hx ▸ hobject)
      | cons j q =>
        rw [List.cons_append] at hp
        obtain ⟨rfl, hrest⟩ := List.cons.inj hp
        obtain ⟨w, hw, hwx⟩ := Option.bind_eq_some_iff.mp hx
        exact Or.inr ⟨w, hw, ih.mpr ⟨q, r, x, hrest, hr, hwx, hobject⟩⟩

/-- What stands at a path, with all objects taken for one. -/
def kindAt (v : Json ν) (p : List String) : Option (Option (Json ν)) := (v.atPath p).map leaf

@[simp] theorem kindAt_nil (v : Json ν) : v.kindAt [] = some v.leaf := rfl

theorem kindAt_cons (v : Json ν) (k : String) (p : List String) :
    v.kindAt (k :: p) = (v.get? k).bind (fun w => w.kindAt p) := by
  rw [kindAt, atPath, Option.map_bind]
  rfl

theorem kindAt_of_cutsOff {v : Json ν} {p : List String} (h : v.cutsOff p = true) :
    v.kindAt p = none := by
  rw [kindAt, atPath_of_cutsOff h, Option.map_none]

end Json

end PangeaOperator

import Mathlib

/-!
# JSON values, key order and merge patches

Objects are member lists in document order, numbers are an arbitrary type `ν`.
`Same` is equality up to the order of object members at every depth, `sortKeys`
a canonical representative for it, and `mergePatch` the RFC 7396 merge. A patch
value is reached by merging exactly when it `Overwrites` what is stored: no
nulls inside it and no stored member that it leaves out.
-/

namespace PangeaOperator

inductive Json (ν : Type) where
  | null
  | bool (b : Bool)
  | num (n : ν)
  | str (s : String)
  | arr (items : List (Json ν))
  | obj (members : List (String × Json ν))
  deriving Repr

namespace Json

variable {ν : Type}

/-- Induction with the hypothesis for every item and every member value. -/
theorem induct {motive : Json ν → Prop}
    (null : motive .null) (bool : ∀ b, motive (.bool b)) (num : ∀ n, motive (.num n))
    (str : ∀ s, motive (.str s))
    (arr : ∀ xs, (∀ x ∈ xs, motive x) → motive (.arr xs))
    (obj : ∀ ms, (∀ m ∈ ms, motive m.2) → motive (.obj ms)) (v : Json ν) : motive v := by
  refine Json.rec (motive_1 := motive) (motive_2 := fun xs => ∀ x ∈ xs, motive x)
    (motive_3 := fun ms => ∀ m ∈ ms, motive m.2) (motive_4 := fun m => motive m.2)
    null bool num str arr obj ?_ ?_ ?_ ?_ ?_ v
  · intro x hx
    cases hx
  · intro x xs hx hxs y hy
    rcases List.mem_cons.mp hy with he | hy
    · exact he ▸ hx
    · exact hxs y hy
  · intro m hm
    cases hm
  · intro m ms hm hms n hn
    rcases List.mem_cons.mp hn with he | hn
    · exact he ▸ hm
    · exact hms n hn
  · intro k v hv
    exact hv

section Decidable

variable [DecidableEq ν]

mutual
def decEq : (a b : Json ν) → Decidable (a = b)
  | .null, .null => isTrue rfl
  | .bool a, .bool b => decidable_of_iff (a = b) (by simp)
  | .num a, .num b => decidable_of_iff (a = b) (by simp)
  | .str a, .str b => decidable_of_iff (a = b) (by simp)
  | .arr xs, .arr ys =>
    match decEqItems xs ys with
    | isTrue h => isTrue (by rw [h])
    | isFalse h => isFalse (by simpa using h)
  | .obj ms, .obj ns =>
    match decEqMembers ms ns with
    | isTrue h => isTrue (by rw [h])
    | isFalse h => isFalse (by simpa using h)
  | .null, .bool _ | .null, .num _ | .null, .str _ | .null, .arr _ | .null, .obj _
  | .bool _, .null | .bool _, .num _ | .bool _, .str _ | .bool _, .arr _ | .bool _, .obj _
  | .num _, .null | .num _, .bool _ | .num _, .str _ | .num _, .arr _ | .num _, .obj _
  | .str _, .null | .str _, .bool _ | .str _, .num _ | .str _, .arr _ | .str _, .obj _
  | .arr _, .null | .arr _, .bool _ | .arr _, .num _ | .arr _, .str _ | .arr _, .obj _
  | .obj _, .null | .obj _, .bool _ | .obj _, .num _ | .obj _, .str _ | .obj _, .arr _ =>
    isFalse (by simp)
def decEqItems : (xs ys : List (Json ν)) → Decidable (xs = ys)
  | [], [] => isTrue rfl
  | [], _ :: _ => isFalse (by simp)
  | _ :: _, [] => isFalse (by simp)
  | x :: xs, y :: ys =>
    match decEq x y, decEqItems xs ys with
    | isTrue h, isTrue hs => isTrue (by rw [h, hs])
    | isFalse h, _ => isFalse (by intro he; exact h (List.cons.inj he).1)
    | _, isFalse hs => isFalse (by intro he; exact hs (List.cons.inj he).2)
def decEqMember : (m n : String × Json ν) → Decidable (m = n)
  | (j, v), (k, w) =>
    match decEq v w with
    | isTrue h => decidable_of_iff (j = k) (by simp [h])
    | isFalse h => isFalse (by intro he; exact h (Prod.mk.inj he).2)
def decEqMembers : (ms ns : List (String × Json ν)) → Decidable (ms = ns)
  | [], [] => isTrue rfl
  | [], _ :: _ => isFalse (by simp)
  | _ :: _, [] => isFalse (by simp)
  | m :: ms, n :: ns =>
    match decEqMember m n, decEqMembers ms ns with
    | isTrue h, isTrue hs => isTrue (by rw [h, hs])
    | isFalse h, _ => isFalse (by intro he; exact h (List.cons.inj he).1)
    | _, isFalse hs => isFalse (by intro he; exact hs (List.cons.inj he).2)
end

instance : DecidableEq (Json ν) := decEq

end Decidable

/-- First member of that name. -/
def lookup (k : String) : List (String × Json ν) → Option (Json ν)
  | [] => none
  | m :: ms => if m.1 = k then some m.2 else lookup k ms

def members : Json ν → List (String × Json ν)
  | .obj ms => ms
  | _ => []

def get? (v : Json ν) (k : String) : Option (Json ν) := lookup k v.members

@[simp] theorem lookup_nil (k : String) : lookup k ([] : List (String × Json ν)) = none := rfl
@[simp] theorem lookup_cons (k j : String) (v : Json ν) (ms : List (String × Json ν)) :
    lookup k ((j, v) :: ms) = if j = k then some v else lookup k ms := rfl
@[simp] theorem get?_obj (ms : List (String × Json ν)) (k : String) :
    (Json.obj ms).get? k = lookup k ms := rfl

theorem lookup_append (k : String) (ms ns : List (String × Json ν)) :
    lookup k (ms ++ ns) = (lookup k ms).or (lookup k ns) := by
  induction ms with
  | nil => simp
  | cons m ms ih =>
    obtain ⟨j, v⟩ := m
    by_cases hk : j = k
    · simp [hk]
    · simp [hk, ih]

theorem lookup_mem {k : String} {v : Json ν} {ms : List (String × Json ν)}
    (h : lookup k ms = some v) : (k, v) ∈ ms := by
  induction ms with
  | nil => simp at h
  | cons m ms ih =>
    obtain ⟨j, w⟩ := m
    simp only [lookup_cons] at h
    split at h
    · next hj =>
      cases h
      simp [hj]
    · exact List.mem_cons_of_mem _ (ih h)

theorem lookup_eq_none_iff {k : String} {ms : List (String × Json ν)} :
    lookup k ms = none ↔ k ∉ ms.map Prod.fst := by
  induction ms with
  | nil => simp
  | cons m ms ih =>
    obtain ⟨j, w⟩ := m
    simp only [lookup_cons, List.map_cons, List.mem_cons, not_or]
    by_cases h : j = k
    · simp [h]
    · simp [h, ih, Ne.symm h]

theorem lookup_of_mem {ms : List (String × Json ν)} (hn : (ms.map Prod.fst).Nodup)
    {k : String} {v : Json ν} (h : (k, v) ∈ ms) : lookup k ms = some v := by
  induction ms with
  | nil => simp at h
  | cons m ms ih =>
    obtain ⟨j, w⟩ := m
    simp only [List.map_cons, List.nodup_cons] at hn
    rcases List.mem_cons.mp h with he | h
    · cases he
      simp
    · have hj : j ≠ k := by
        intro he
        exact hn.1 (he ▸ List.mem_map_of_mem h)
      simp [hj, ih hn.2 h]

/-- Drop every member of that name. -/
def remove (k : String) (ms : List (String × Json ν)) : List (String × Json ν) :=
  ms.filter (fun m => m.1 ≠ k)

/-- Replace the member of that name in place, or append it. -/
def set (k : String) (v : Json ν) : List (String × Json ν) → List (String × Json ν)
  | [] => [(k, v)]
  | m :: ms => if m.1 = k then (k, v) :: ms else m :: set k v ms

@[simp] theorem lookup_remove (j k : String) (ms : List (String × Json ν)) :
    lookup j (remove k ms) = if k = j then none else lookup j ms := by
  induction ms with
  | nil => simp [remove]
  | cons m ms ih =>
    obtain ⟨i, w⟩ := m
    unfold remove at ih ⊢
    by_cases hi : i = k
    · subst i
      simp only [ne_eq, not_true, decide_false, Bool.false_eq_true, not_false_eq_true,
        List.filter_cons_of_neg, ih, lookup_cons]
      split <;> simp_all
    · simp only [ne_eq, hi, not_false_eq_true, decide_true, List.filter_cons_of_pos, lookup_cons,
        ih]
      split <;> split <;> simp_all

@[simp] theorem lookup_set (j k : String) (v : Json ν) (ms : List (String × Json ν)) :
    lookup j (set k v ms) = if k = j then some v else lookup j ms := by
  induction ms with
  | nil => simp [set]
  | cons m ms ih =>
    obtain ⟨i, w⟩ := m
    unfold set
    by_cases hi : i = k
    · subst i
      simp only [if_true, lookup_cons]
      split <;> rfl
    · simp only [hi, if_false, lookup_cons, ih]
      split <;> split <;> simp_all

mutual
/-- RFC 7396: an object patch is merged member by member, anything else replaces. -/
def mergePatch : Json ν → Json ν → Json ν
  | target, .obj ms => .obj (mergeMembers target.members ms)
  | _, p => p
def mergeMembers : List (String × Json ν) → List (String × Json ν) → List (String × Json ν)
  | target, [] => target
  | target, m :: ms => mergeMembers (mergeMember target m) ms
def mergeMember : List (String × Json ν) → String × Json ν → List (String × Json ν)
  | target, (k, .null) => remove k target
  | target, (k, v) => set k (mergePatch ((lookup k target).getD .null) v) target
end

/-- What merging one patch member leaves under its name. -/
def mergeSlot (stored : Option (Json ν)) : Option (Json ν) → Option (Json ν)
  | none => stored
  | some .null => none
  | some v => some (mergePatch (stored.getD .null) v)

theorem lookup_mergeMember (j k : String) (v : Json ν) (target : List (String × Json ν)) :
    lookup j (mergeMember target (k, v)) =
      if k = j then mergeSlot (lookup j target) (some v) else lookup j target := by
  cases v <;> simp only [mergeMember, mergeSlot, lookup_remove, lookup_set] <;>
    (split <;> simp_all)

/-- Merging acts on each member on its own. -/
theorem lookup_mergeMembers (j : String) (target ms : List (String × Json ν))
    (hn : (ms.map Prod.fst).Nodup) :
    lookup j (mergeMembers target ms) = mergeSlot (lookup j target) (lookup j ms) := by
  induction ms generalizing target with
  | nil => rfl
  | cons m ms ih =>
    obtain ⟨k, v⟩ := m
    simp only [List.map_cons, List.nodup_cons] at hn
    rw [mergeMembers, ih _ hn.2, lookup_mergeMember, lookup_cons]
    by_cases hk : k = j
    · subst k
      simp [lookup_eq_none_iff.mpr hn.1, mergeSlot]
    · simp [hk]

theorem get?_mergePatch (target : Json ν) (ms : List (String × Json ν))
    (hn : (ms.map Prod.fst).Nodup) (k : String) :
    (mergePatch target (.obj ms)).get? k = mergeSlot (target.get? k) (lookup k ms) := by
  rw [mergePatch]
  exact lookup_mergeMembers k target.members ms hn

/-- No object of the value repeats a member name. -/
inductive DistinctKeys : Json ν → Prop
  | null : DistinctKeys .null
  | bool (b : Bool) : DistinctKeys (.bool b)
  | num (n : ν) : DistinctKeys (.num n)
  | str (s : String) : DistinctKeys (.str s)
  | arr {xs : List (Json ν)} (items : ∀ x ∈ xs, DistinctKeys x) : DistinctKeys (.arr xs)
  | obj {ms : List (String × Json ν)} (names : (ms.map Prod.fst).Nodup)
      (values : ∀ m ∈ ms, DistinctKeys m.2) : DistinctKeys (.obj ms)

/-- Equality up to the order of object members, at every depth. -/
inductive Same : Json ν → Json ν → Prop
  | null : Same .null .null
  | bool (b : Bool) : Same (.bool b) (.bool b)
  | num (n : ν) : Same (.num n) (.num n)
  | str (s : String) : Same (.str s) (.str s)
  | arr {xs ys : List (Json ν)} (items : List.Forall₂ Same xs ys) : Same (.arr xs) (.arr ys)
  | obj {ms ns : List (String × Json ν)}
      (values : ∀ k, Option.Rel Same (lookup k ms) (lookup k ns)) : Same (.obj ms) (.obj ns)

theorem same_refl (v : Json ν) : Same v v := by
  induction v using induct with
  | null => exact .null
  | bool b => exact .bool b
  | num n => exact .num n
  | str s => exact .str s
  | arr xs ih => exact .arr (List.forall₂_same.mpr ih)
  | obj ms ih =>
    refine .obj (fun k => ?_)
    cases h : lookup k ms with
    | none => exact .none
    | some v => exact .some (ih _ (lookup_mem h))

theorem same_obj_iff {ms ns : List (String × Json ν)} :
    Same (.obj ms) (.obj ns) ↔ ∀ k, Option.Rel Same (lookup k ms) (lookup k ns) :=
  ⟨fun h => by cases h; assumption, .obj⟩

mutual
/-- Merging this patch value into the stored one leaves exactly the patch value:
it holds no null member, and no stored member is missing from it. -/
def overwrites : Json ν → Json ν → Bool
  | .obj ms, stored =>
    stored.members.all (fun m => (lookup m.1 ms).isSome) && overwritesMembers ms stored.members
  | _, _ => true
def overwritesMembers : List (String × Json ν) → List (String × Json ν) → Bool
  | [], _ => true
  | m :: ms, stored => overwritesMember m stored && overwritesMembers ms stored
def overwritesMember : String × Json ν → List (String × Json ν) → Bool
  | (_, .null), _ => false
  | (k, v), stored => overwrites v ((lookup k stored).getD .null)
end

theorem overwritesMembers_iff (ms stored : List (String × Json ν)) :
    overwritesMembers ms stored = true ↔ ∀ m ∈ ms, overwritesMember m stored = true := by
  induction ms with
  | nil => simp [overwritesMembers]
  | cons m ms ih => simp [overwritesMembers, ih]

theorem overwritesMember_iff (k : String) (v : Json ν) (stored : List (String × Json ν)) :
    overwritesMember (k, v) stored = true ↔
      v ≠ .null ∧ overwrites v ((lookup k stored).getD .null) = true := by
  cases v <;> simp [overwritesMember]

theorem mergeSlot_some {v : Json ν} (hv : v ≠ .null) (stored : Option (Json ν)) :
    mergeSlot stored (some v) = some (mergePatch (stored.getD .null) v) := by
  cases v <;> first | exact absurd rfl hv | rfl

/-- Merging reaches the patch value exactly when it overwrites the stored one. -/
theorem same_mergePatch_iff (v stored : Json ν) (hv : DistinctKeys v) :
    Same (mergePatch stored v) v ↔ overwrites v stored = true := by
  induction v using induct generalizing stored with
  | null => simpa [mergePatch, overwrites] using same_refl _
  | bool b => simpa [mergePatch, overwrites] using same_refl _
  | num n => simpa [mergePatch, overwrites] using same_refl _
  | str s => simpa [mergePatch, overwrites] using same_refl _
  | arr xs _ => simpa [mergePatch, overwrites] using same_refl _
  | obj ms ih =>
    obtain ⟨hn, hd⟩ : (ms.map Prod.fst).Nodup ∧ ∀ m ∈ ms, DistinctKeys m.2 := by
      cases hv with
      | obj names values => exact ⟨names, values⟩
    simp only [mergePatch, same_obj_iff, lookup_mergeMembers _ _ _ hn, overwrites, Bool.and_eq_true,
      List.all_eq_true, overwritesMembers_iff]
    constructor
    · intro h
      refine ⟨fun m hm => ?_, fun m hm => ?_⟩
      · have hk := h m.1
        cases hl : lookup m.1 ms with
        | some v => rfl
        | none =>
          rw [hl, mergeSlot] at hk
          have hs : lookup m.1 stored.members ≠ none := by
            rw [Ne, lookup_eq_none_iff]
            exact fun hc => hc (List.mem_map_of_mem hm)
          cases hs' : lookup m.1 stored.members with
          | none => exact absurd hs' hs
          | some w =>
            rw [hs'] at hk
            cases hk
      · obtain ⟨k, v⟩ := m
        have hk := h k
        rw [lookup_of_mem hn hm] at hk
        rw [overwritesMember_iff]
        have hne : v ≠ .null := by
          rintro rfl
          rw [mergeSlot] at hk
          cases hk
        rw [mergeSlot_some hne] at hk
        refine ⟨hne, (ih _ hm _ (hd _ hm)).mp ?_⟩
        cases hk
        assumption
    · rintro ⟨hcover, hmem⟩ k
      cases hl : lookup k ms with
      | none =>
        have hs : lookup k stored.members = none := by
          rw [lookup_eq_none_iff]
          intro hk
          obtain ⟨m, hm, rfl⟩ := List.mem_map.mp hk
          have hc := hcover m hm
          simp [hl] at hc
        rw [hs, mergeSlot]
        exact .none
      | some v =>
        have hm := lookup_mem hl
        obtain ⟨hne, ho⟩ := (overwritesMember_iff k v _).mp (hmem _ hm)
        rw [mergeSlot_some hne]
        exact .some ((ih _ hm _ (hd _ hm)).mpr ho)

end Json

end PangeaOperator

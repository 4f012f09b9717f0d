import Mathlib
import PangeaOperator.Lib.UnionFind

/-!
# Connected components by disjoint sets

The root of an element is the only function that a root fixes and that a step to the parent keeps.
From this the roots after a compression and after a union are read off. Parents represent a
relation when elements have one root exactly if the relation connects them, and the root is then
the least element of the component.
-/

namespace PangeaOperator

namespace UnionFind

open Relation (EqvGen)

variable {α : Type} [LinearOrder α] {keys : List α} {parent : α → α} {a b k : α} {n : Nat}

def rootOf (keys : List α) (parent : α → α) (k : α) : α := climb parent keys.length k

section Roots

/-- More rounds than keys change nothing. -/
theorem climb_eq_rootOf (h : Descends keys parent) (hn : keys.length ≤ n) :
    climb parent n k = rootOf keys parent k := by
  induction n, hn using Nat.le_induction with
  | base => rfl
  | succ n hn ih =>
    rw [climb_ends h ((height_le keys k).trans hn)]
    exact ih

theorem parent_rootOf (h : Descends keys parent) (k : α) :
    parent (rootOf keys parent k) = rootOf keys parent k := climb_root h (height_le keys k)

theorem rootOf_of_root (hk : parent k = k) : rootOf keys parent k = k := by
  unfold rootOf
  cases keys.length with
  | zero => rfl
  | succ n => rw [climb, if_pos hk]

theorem rootOf_parent (h : Descends keys parent) (k : α) :
    rootOf keys parent (parent k) = rootOf keys parent k := by
  by_cases hk : parent k = k
  · rw [hk]
  · rw [← climb_eq_rootOf (k := k) h (Nat.le_succ keys.length), climb, if_neg hk]
    rfl

@[simp] theorem rootOf_rootOf (h : Descends keys parent) (k : α) :
    rootOf keys parent (rootOf keys parent k) = rootOf keys parent k :=
  rootOf_of_root (parent_rootOf h k)

theorem rootOf_le (h : Descends keys parent) (k : α) : rootOf keys parent k ≤ k := by
  by_cases hk : rootOf keys parent k = k
  · exact hk.le
  · exact (climb_lt h hk).1.le

theorem rootOf_mem (h : Descends keys parent) (hk : k ∈ keys) : rootOf keys parent k ∈ keys :=
  climb_mem h hk

/-- What roots and parents agree on is the root. -/
theorem eq_rootOf (h : Descends keys parent) {f : α → α} (hroot : ∀ k, parent k = k → f k = k)
    (hstep : ∀ k, parent k ≠ k → f (parent k) = f k) : f = rootOf keys parent := by
  funext k
  induction hheight : height keys k using Nat.strongRecOn generalizing k with
  | ind m ih =>
    by_cases hk : parent k = k
    · rw [hroot k hk, rootOf_of_root hk]
    · have hlt := height_parent h hk
      rw [← hstep k hk, ← rootOf_parent h k]
      exact ih _ (hheight ▸ hlt) _ rfl

/-- A pointer to the root of its element keeps all roots. -/
theorem rootOf_redirect (h : Descends keys parent)
    (h' : Descends keys (Function.update parent k (rootOf keys parent k)))
    (hk : rootOf keys parent k ≠ k) :
    rootOf keys (Function.update parent k (rootOf keys parent k)) = rootOf keys parent := by
  refine (eq_rootOf h' (fun j hj => ?_) (fun j _ => ?_)).symm
  · by_cases hjk : j = k
    · rw [hjk, Function.update_self] at hj
      exact absurd hj hk
    · rw [Function.update_of_ne hjk] at hj
      exact rootOf_of_root hj
  · by_cases hjk : j = k
    · rw [hjk, Function.update_self, rootOf_rootOf h]
    · rw [Function.update_of_ne hjk, rootOf_parent h]

theorem leads_rootOf (h : Descends keys parent) (k : α) :
    Leads parent k (rootOf keys parent k) := ⟨parent_rootOf h k, keys.length, rfl⟩

theorem rootOf_compress (h : Descends keys parent) :
    rootOf keys (compress (rootOf keys parent k) n k parent) = rootOf keys parent := by
  induction n generalizing k parent with
  | zero => rfl
  | succ n ih =>
    unfold compress
    split
    · rfl
    · next hne =>
      obtain ⟨hself, -, hlt, hdesc, -⟩ := leads_update h (leads_rootOf h k) hne
      have hsame := rootOf_redirect h hdesc hlt.ne
      have hroot : rootOf keys parent k =
          rootOf keys (Function.update parent k (rootOf keys parent k)) (parent k) := by
        rw [hsame, rootOf_parent h]
      conv_lhs =>
        enter [2, 1]
        rw [hroot]
      rw [ih hdesc, hsame]

theorem find_fst (h : Descends keys parent) (hn : keys.length ≤ n) :
    (find n parent k).1 = rootOf keys parent k := climb_eq_rootOf h hn

theorem rootOf_find (h : Descends keys parent) (hn : keys.length ≤ n) :
    rootOf keys (find n parent k).2 = rootOf keys parent := by
  change rootOf keys (compress (climb parent n k) n k parent) = _
  rw [climb_eq_rootOf h hn, rootOf_compress h]

/-- A root that is pointed at a lesser one hands its elements over. -/
theorem rootOf_link {lo hi : α} (h : Descends keys parent) (hlo : parent lo = lo)
    (hhi : parent hi = hi) (hlt : lo < hi) (hmem : lo ∈ keys) (j : α) :
    rootOf keys (Function.update parent hi lo) j =
      if rootOf keys parent j = hi then lo else rootOf keys parent j := by
  have h' := descends_update h hlt hmem
  refine (congrFun (eq_rootOf h' (f := fun j =>
    if rootOf keys parent j = hi then lo else rootOf keys parent j) ?_ ?_) j).symm
  · intro j hj
    by_cases hjhi : j = hi
    · rw [hjhi, Function.update_self] at hj
      exact absurd hj hlt.ne
    · rw [Function.update_of_ne hjhi] at hj
      rw [rootOf_of_root hj, if_neg hjhi]
  · intro j _
    by_cases hjhi : j = hi
    · rw [hjhi, Function.update_self, rootOf_of_root hhi, rootOf_of_root hlo, if_pos rfl,
        if_neg hlt.ne]
    · rw [Function.update_of_ne hjhi, rootOf_parent h]

theorem rootOf_union (h : Descends keys parent) (hn : keys.length ≤ n) (ha : a ∈ keys)
    (hb : b ∈ keys) (j : α) :
    rootOf keys (union n parent a b) j =
      if rootOf keys parent j = max (rootOf keys parent a) (rootOf keys parent b) then
        min (rootOf keys parent a) (rootOf keys parent b)
      else rootOf keys parent j := by
  have h₁ := find_descends (k := a) h hn
  have h₂ := find_descends (k := b) h₁ hn
  have hra : (find n parent a).1 = rootOf keys parent a := find_fst h hn
  have hrb : (find n (find n parent a).2 b).1 = rootOf keys parent b := by
    rw [find_fst h₁ hn, rootOf_find h hn]
  have hsame : rootOf keys (find n (find n parent a).2 b).2 = rootOf keys parent := by
    rw [rootOf_find h₁ hn, rootOf_find h hn]
  have hfixed (k : α) : (find n (find n parent a).2 b).2 (rootOf keys parent k) =
      rootOf keys parent k := by
    have hroot := parent_rootOf h₂ k
    rwa [hsame] at hroot
  unfold union
  dsimp only
  rw [hra, hrb]
  split
  · next heq =>
    rw [hsame, heq, max_self, min_self]
    split
    · next hj => exact hj
    · rfl
  · next hne =>
    split
    · next hlt =>
      rw [rootOf_link h₂ (hfixed a) (hfixed b) hlt (rootOf_mem h ha), hsame,
        max_eq_right hlt.le, min_eq_left hlt.le]
    · next hge =>
      have hlt := lt_of_le_of_ne (not_lt.mp hge) (Ne.symm hne)
      rw [rootOf_link h₂ (hfixed b) (hfixed a) hlt (rootOf_mem h hb), hsame,
        max_eq_left hlt.le, min_eq_right hlt.le]

end Roots

/-- Elements have one root exactly if the relation connects them. -/
structure Classifies (keys : List α) (parent : α → α) (r : α → α → Prop) : Prop where
  descends : Descends keys parent
  classes : ∀ j k, rootOf keys parent j = rootOf keys parent k ↔ EqvGen r j k

section Classes

variable {r r' : α → α → Prop}

theorem classifies_id (keys : List α) : Classifies keys id fun _ _ => False where
  descends := descends_id keys
  classes := by
    intro j k
    rw [rootOf_of_root rfl, rootOf_of_root rfl]
    constructor
    · rintro rfl
      exact .refl j
    · intro h
      induction h with
      | rel _ _ h => exact h.elim
      | refl _ => rfl
      | symm _ _ _ ih => exact ih.symm
      | trans _ _ _ _ _ ihx ihy => exact ihx.trans ihy

theorem Classifies.connects (h : Classifies keys parent r) (k : α) :
    EqvGen r k (rootOf keys parent k) :=
  (h.classes k _).mp (rootOf_rootOf h.descends k).symm

/-- The root is the least element of the component. -/
theorem Classifies.least (h : Classifies keys parent r) (k : α) :
    IsLeast {j | EqvGen r k j} (rootOf keys parent k) := by
  refine ⟨h.connects k, fun j hj => ?_⟩
  rw [(h.classes k j).mpr hj]
  exact rootOf_le h.descends j

/-- Relations with the same components have the same roots. -/
theorem Classifies.roots_eq {parent' : α → α} (h : Classifies keys parent r)
    (h' : Classifies keys parent' r') (hsame : EqvGen r = EqvGen r') :
    rootOf keys parent = rootOf keys parent' := by
  funext k
  have hleast := h'.least k
  rw [← hsame] at hleast
  exact (h.least k).unique hleast

theorem Classifies.congr (h : Classifies keys parent r) (hsame : EqvGen r = EqvGen r') :
    Classifies keys parent r' := ⟨h.descends, fun j k => by rw [h.classes, hsame]⟩

theorem Classifies.union (h : Classifies keys parent r) (hn : keys.length ≤ n) (ha : a ∈ keys)
    (hb : b ∈ keys) :
    Classifies keys (union n parent a b) fun x y => r x y ∨ (x = a ∧ y = b) where
  descends := union_descends h.descends hn ha hb
  classes := by
    have hroot := rootOf_union h.descends hn ha hb
    have hold {x y : α} (hxy : EqvGen r x y) : EqvGen (fun x y => r x y ∨ (x = a ∧ y = b)) x y :=
      Relation.EqvGen.mono (fun _ _ hr => .inl hr) x y hxy
    have hab : EqvGen (fun x y => r x y ∨ (x = a ∧ y = b)) a b := .rel _ _ (.inr ⟨rfl, rfl⟩)
    -- the two old roots are connected through the new edge
    have hroots : EqvGen (fun x y => r x y ∨ (x = a ∧ y = b)) (rootOf keys parent a)
        (rootOf keys parent b) :=
      .trans _ _ _ (.symm _ _ (hold (h.connects a))) (.trans _ _ _ hab (hold (h.connects b)))
    have hbounds : EqvGen (fun x y => r x y ∨ (x = a ∧ y = b))
        (max (rootOf keys parent a) (rootOf keys parent b))
        (min (rootOf keys parent a) (rootOf keys parent b)) := by
      rcases le_total (rootOf keys parent a) (rootOf keys parent b) with hle | hle
      · rw [max_eq_right hle, min_eq_left hle]
        exact .symm _ _ hroots
      · rw [max_eq_left hle, min_eq_right hle]
        exact hroots
    have hself (k : α) : EqvGen (fun x y => r x y ∨ (x = a ∧ y = b)) k
        (rootOf keys (UnionFind.union n parent a b) k) := by
      rw [hroot k]
      split
      · next hk => exact .trans _ _ _ (hold (h.connects k)) (hk ▸ hbounds)
      · exact hold (h.connects k)
    intro j k
    constructor
    · intro heq
      exact .trans _ _ _ (hself j) (heq ▸ .symm _ _ (hself k))
    · intro hjk
      induction hjk with
      | rel x y hxy =>
        rcases hxy with hxy | ⟨rfl, rfl⟩
        · rw [hroot, hroot, (h.classes x y).mpr (.rel x y hxy)]
        · rw [hroot, hroot]
          rcases le_total (rootOf keys parent x) (rootOf keys parent y) with hle | hle
          · rw [max_eq_right hle, min_eq_left hle, if_pos rfl]
            split <;> rfl
          · rw [max_eq_left hle, min_eq_right hle, if_pos rfl]
            split <;> rfl
      | refl _ => rfl
      | symm _ _ _ ih => exact ih.symm
      | trans _ _ _ _ _ ihx ihy => exact ihx.trans ihy

end Classes

end UnionFind

end PangeaOperator

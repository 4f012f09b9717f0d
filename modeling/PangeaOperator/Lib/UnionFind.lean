import Mathlib

/-!
# Disjoint sets by parent pointers

An element points at its parent, a root at itself. `climb` follows the parents of an element,
`compress` points what was passed at the root that was found. Parents go down among finitely many
elements, so with one round for each of them both loops come to their end.
-/

namespace PangeaOperator

namespace UnionFind

variable {α : Type} [LinearOrder α]

def climb (parent : α → α) : Nat → α → α
  | 0, k => k
  | n + 1, k => if parent k = k then k else climb parent n (parent k)

def compress (root : α) : Nat → α → (α → α) → (α → α)
  | 0, _, parent => parent
  | n + 1, cur, parent =>
    if parent cur = root then parent
    else compress root n (parent cur) (Function.update parent cur root)

/-- The root of an element, and the parents after the path to it is compressed. -/
def find (fuel : Nat) (parent : α → α) (k : α) : α × (α → α) :=
  let root := climb parent fuel k
  (root, compress root fuel k parent)

/-- The greater of two roots is pointed at the lesser one. -/
def union (fuel : Nat) (parent : α → α) (a b : α) : α → α :=
  let (ra, parent) := find fuel parent a
  let (rb, parent) := find fuel parent b
  if ra = rb then parent
  else if ra < rb then Function.update parent rb ra
  else Function.update parent ra rb

variable {keys : List α} {parent : α → α} {a b k root : α} {n : Nat}

def Descends (keys : List α) (parent : α → α) : Prop :=
  ∀ k, parent k ≠ k → parent k < k ∧ parent k ∈ keys

/-- How many elements are below. -/
def height (keys : List α) (k : α) : Nat := (keys.toFinset.filter (· < k)).card

theorem height_le (keys : List α) (k : α) : height keys k ≤ keys.length :=
  (Finset.card_filter_le _ _).trans keys.toFinset_card_le

theorem descends_id (keys : List α) : Descends keys id := fun _ h => absurd rfl h

theorem height_parent (h : Descends keys parent) (hk : parent k ≠ k) :
    height keys (parent k) < height keys k := by
  obtain ⟨hlt, hmem⟩ := h k hk
  refine Finset.card_lt_card (Finset.ssubset_iff_of_subset ?_ |>.mpr ⟨parent k, ?_, ?_⟩)
  · exact Finset.monotone_filter_right _ fun j _ hj => hj.trans hlt
  · exact Finset.mem_filter.mpr ⟨List.mem_toFinset.mpr hmem, hlt⟩
  · exact fun hself => absurd (Finset.mem_filter.mp hself).2 (lt_irrefl _)

/-- The first loop ends at a root. -/
theorem climb_root (h : Descends keys parent) (hn : height keys k ≤ n) :
    parent (climb parent n k) = climb parent n k := by
  induction n generalizing k with
  | zero =>
    by_contra hne
    have hlt := height_parent h hne
    rw [climb] at hlt
    omega
  | succ n ih =>
    unfold climb
    split
    · next hroot => exact hroot
    · next hne =>
      have hlt := height_parent h hne
      exact ih (by omega)

theorem climb_lt (h : Descends keys parent) (hne : climb parent n k ≠ k) :
    climb parent n k < k ∧ climb parent n k ∈ keys := by
  induction n generalizing k with
  | zero => exact absurd rfl hne
  | succ n ih =>
    unfold climb at hne ⊢
    split at hne
    · exact absurd rfl hne
    · next hk =>
      rw [if_neg hk]
      obtain ⟨hlt, hmem⟩ := h k hk
      by_cases hstop : climb parent n (parent k) = parent k
      · rw [hstop]
        exact ⟨hlt, hmem⟩
      · exact ⟨(ih hstop).1.trans hlt, (ih hstop).2⟩

theorem climb_mem (h : Descends keys parent) (hk : k ∈ keys) : climb parent n k ∈ keys := by
  by_cases hne : climb parent n k = k
  · rwa [hne]
  · exact (climb_lt h hne).2

theorem climb_ends (h : Descends keys parent) (hn : height keys k ≤ n) :
    climb parent (n + 1) k = climb parent n k := by
  induction n generalizing k with
  | zero =>
    rw [climb, climb]
    split
    · rfl
    · next hne =>
      have hlt := height_parent h hne
      omega
  | succ n ih =>
    rw [climb]
    conv_rhs => rw [climb]
    split
    · rfl
    · next hne =>
      have hlt := height_parent h hne
      exact ih (by omega)

/-- Pointers of greater elements do not matter. -/
theorem climb_update (h : Descends keys parent) {j : α} (hj : j < k) :
    climb (Function.update parent k root) n j = climb parent n j := by
  induction n generalizing j with
  | zero => rfl
  | succ n ih =>
    unfold climb
    rw [Function.update_of_ne hj.ne]
    split
    · rfl
    · next hne => exact ih ((h j hne).1.trans hj)

/-- Following the parents of an element ends at this root. -/
def Leads (parent : α → α) (k root : α) : Prop :=
  parent root = root ∧ ∃ n, climb parent n k = root

/-- What one round of the second loop leaves. -/
theorem leads_update (h : Descends keys parent) (hk : Leads parent k root)
    (hne : parent k ≠ root) : parent k ≠ k ∧ root ∈ keys ∧ root < k ∧
      Descends keys (Function.update parent k root) ∧
        Leads (Function.update parent k root) (parent k) root := by
  obtain ⟨hroot, n, hn⟩ := hk
  have hk : k ≠ root := fun he => hne (he ▸ hroot)
  obtain ⟨hlt, hmem⟩ := climb_lt h (n := n) (k := k) (hn ▸ Ne.symm hk)
  rw [hn] at hlt hmem
  have hself : parent k ≠ k := by
    intro he
    cases n with
    | zero => exact hk hn
    | succ n =>
      rw [climb, if_pos he] at hn
      exact hk hn
  refine ⟨hself, hmem, hlt, fun j hj => ?_, ?_, ?_⟩
  · by_cases hjk : j = k
    · subst hjk
      rw [Function.update_self]
      exact ⟨hlt, hmem⟩
    · rw [Function.update_of_ne hjk] at hj ⊢
      exact h j hj
  · rw [Function.update_of_ne (Ne.symm hk), hroot]
  · cases n with
    | zero => exact absurd hn hk
    | succ n =>
      rw [climb, if_neg hself] at hn
      exact ⟨n, by rw [climb_update h (h k hself).1, hn]⟩

theorem compress_descends (h : Descends keys parent) (hk : Leads parent k root) :
    Descends keys (compress root n k parent) := by
  induction n generalizing k parent with
  | zero => exact h
  | succ n ih =>
    unfold compress
    split
    · exact h
    · next hne =>
      obtain ⟨-, -, -, hdesc, hleads⟩ := leads_update h hk hne
      exact ih hdesc hleads

/-- The second loop comes to its end: more rounds change nothing. -/
theorem compress_ends (h : Descends keys parent) (hk : Leads parent k root)
    (hn : height keys k ≤ n) : compress root (n + 1) k parent = compress root n k parent := by
  induction n generalizing k parent with
  | zero =>
    rw [compress, compress]
    by_cases hne : parent k = root
    · rw [if_pos hne]
    · have hlt := height_parent h (leads_update h hk hne).1
      omega
  | succ n ih =>
    rw [compress]
    conv_rhs => rw [compress]
    split
    · rfl
    · next hne =>
      obtain ⟨hself, -, -, hdesc, hleads⟩ := leads_update h hk hne
      have hlt := height_parent h hself
      exact ih hdesc hleads (by omega)

theorem leads_climb (h : Descends keys parent) (hn : keys.length ≤ n) :
    Leads parent k (climb parent n k) :=
  ⟨climb_root h ((height_le keys k).trans hn), n, rfl⟩

theorem find_descends (h : Descends keys parent) (hn : keys.length ≤ n) :
    Descends keys (find n parent k).2 := compress_descends h (leads_climb h hn)

theorem find_ends (h : Descends keys parent) (hn : keys.length ≤ n) :
    find (n + 1) parent k = find n parent k := by
  have hk := (height_le keys k).trans hn
  unfold find
  dsimp only
  rw [climb_ends h hk, compress_ends h (leads_climb h hn) hk]

theorem find_mem (h : Descends keys parent) (hk : k ∈ keys) : (find n parent k).1 ∈ keys :=
  climb_mem h hk

theorem descends_update (h : Descends keys parent) {lo hi : α} (hlt : lo < hi) (hlo : lo ∈ keys) :
    Descends keys (Function.update parent hi lo) := by
  intro k hk
  by_cases hhi : k = hi
  · rw [hhi, Function.update_self]
    exact ⟨hlt, hlo⟩
  · rw [Function.update_of_ne hhi] at hk ⊢
    exact h k hk

theorem union_descends (h : Descends keys parent) (hn : keys.length ≤ n) (ha : a ∈ keys)
    (hb : b ∈ keys) : Descends keys (union n parent a b) := by
  have h₁ := find_descends (k := a) h hn
  have h₂ := find_descends (k := b) h₁ hn
  have hra := find_mem (n := n) h ha
  have hrb := find_mem (n := n) h₁ hb
  unfold union
  dsimp only
  split
  · exact h₂
  · next hne =>
    split
    · next hlt => exact descends_update h₂ hlt hra
    · next hge => exact descends_update h₂ (lt_of_le_of_ne (not_lt.mp hge) (Ne.symm hne)) hrb

theorem union_ends (h : Descends keys parent) (hn : keys.length ≤ n) :
    union (n + 1) parent a b = union n parent a b := by
  unfold union
  rw [find_ends h hn]
  dsimp only
  rw [find_ends (find_descends h hn) hn]

end UnionFind

end PangeaOperator

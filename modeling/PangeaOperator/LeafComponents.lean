import Mathlib
import PangeaOperator.Lib.Components
import PangeaOperator.LeafPartition
import PangeaOperator.StateSplit

/-!
# Merged leaves are connected components

A build collects the addresses of each key. A merge then puts every leaf to the root of its key,
which is the least key of the component that the edges between known keys make.
-/

namespace PangeaOperator.Migrate

open Relation (EqvGen)
open UnionFind

/-- The key of an address that can be read. -/
def keyOf (a : String) : LeafKey :=
  match leafKey a with
  | .ok k => k
  | .error _ => .address a

theorem leafKey_of_parseSteps {a : String} {steps : List Step} (h : parseSteps a = .ok steps) :
    leafKey a = .ok (keyOf a) := by
  unfold keyOf leafKey
  rw [h]
  dsimp only
  cases steps.findSome? Step.key with
  | some k => rfl
  | none =>
    rcases steps with _ | ⟨first, _ | ⟨second, rest⟩⟩
    · rfl
    · rfl
    · dsimp only
      split <;> rfl

namespace Partition

/-- Items that are put into one slot after the other, where none was before. -/
theorem foldl_getD {ι α : Type} (g : ι → α → α) (d : α) (xs : List ι) (hne : xs ≠ []) :
    xs.foldl (fun o x => some (g x (o.getD d))) none = some (xs.foldl (fun s x => g x s) d) := by
  have hsome (xs : List ι) (s : α) :
      xs.foldl (fun o x => some (g x (o.getD d))) (some s) =
        some (xs.foldl (fun s x => g x s) s) := by
    induction xs generalizing s with
    | nil => rfl
    | cons x xs ih => exact ih (g x s)
  cases xs with
  | nil => exact absurd rfl hne
  | cons x xs => exact hsome xs (g x d)

section Build

def addAddress (a : String) (s : LeafSlot) : LeafSlot := { s with addresses := s.addresses ++ [a] }

theorem foldl_addAddress (as : List String) (s : LeafSlot) :
    as.foldl (fun s a => addAddress a s) s = ⟨s.mergedFrom, s.addresses ++ as⟩ := by
  induction as generalizing s with
  | nil => simp
  | cons a as ih =>
    rw [List.foldl_cons, ih]
    simp [addAddress]

variable {as : List String}

theorem buildFrom_eq (hread : ∀ a ∈ as, leafKey a = .ok (keyOf a)) (hnodup : as.Nodup)
    {seen : List String} (hfresh : ∀ a ∈ as, a ∉ seen) (m : SortedMap LeafKey LeafSlot) :
    buildFrom as seen m =
      .ok (m.gather keyOf (fun a o => addAddress a (o.getD ⟨[], []⟩)) as) := by
  induction as generalizing seen m with
  | nil => rfl
  | cons a as ih =>
    rw [List.nodup_cons] at hnodup
    rw [buildFrom, if_neg (hfresh a List.mem_cons_self), hread a List.mem_cons_self]
    refine ih (fun b hb => hread b (List.mem_cons_of_mem a hb)) hnodup.2 (fun b hb => ?_) _
    rw [List.mem_cons, not_or]
    exact ⟨fun hba => hnodup.1 (hba ▸ hb), hfresh b (List.mem_cons_of_mem a hb)⟩

/-- A key holds its addresses, sorted. -/
theorem get?_build {p : Partition} (hread : ∀ a ∈ as, leafKey a = .ok (keyOf a))
    (hdata : ∀ a ∈ as, isData a = false) (h : build as = .ok p) (k : LeafKey) :
    p.slots.get? k = if as.filter (keyOf · = k) = [] then none
      else some (LeafSlot.sort ⟨[], as.filter (keyOf · = k)⟩) := by
  obtain ⟨-, hnodup⟩ := build_spec h
  have hall : as.filter (!isData ·) = as := List.filter_eq_self.mpr fun a ha => by simp [hdata a ha]
  rw [hall] at hnodup
  rw [build, hall, buildFrom_eq hread hnodup (fun _ _ => List.not_mem_nil)] at h
  cases h
  rw [ofSlots, SortedMap.get?_mapValues, SortedMap.get?_gather]
  split
  · next hnil => rw [hnil]; rfl
  · next hne =>
    change Option.map _ (List.foldl _ none _) = _
    rw [foldl_getD addAddress ⟨[], []⟩ _ hne, foldl_addAddress]
    rfl

theorem build_ok (hread : ∀ a ∈ as, leafKey a = .ok (keyOf a)) (hnodup : as.Nodup)
    (hdata : ∀ a ∈ as, isData a = false) : ∃ p, build as = .ok p := by
  have hall : as.filter (!isData ·) = as := List.filter_eq_self.mpr fun a ha => by simp [hdata a ha]
  rw [build, hall, buildFrom_eq hread hnodup (fun _ _ => List.not_mem_nil)]
  exact ⟨_, rfl⟩

end Build

section Merge

variable {keys : List LeafKey} {n : Nat} {parent : LeafKey → LeafKey}

/-- An edge whose ends are both known. -/
def Joined (keys : List LeafKey) (edges : List (LeafKey × LeafKey)) (j k : LeafKey) : Prop :=
  (j, k) ∈ edges ∧ j ∈ keys ∧ k ∈ keys

theorem parents_classifies {r : LeafKey → LeafKey → Prop} (h : Classifies keys parent r)
    (hn : keys.length ≤ n) (edges : List (LeafKey × LeafKey)) :
    Classifies keys (parents n keys edges parent) fun j k => r j k ∨ Joined keys edges j k := by
  induction edges generalizing parent r with
  | nil => exact h.congr (by simp [Joined])
  | cons e edges ih =>
    obtain ⟨a, b⟩ := e
    rw [parents]
    split
    · next hmem =>
      refine (ih (h.union hn hmem.1 hmem.2)).congr ?_
      congr 1
      funext j k
      simp only [Joined, List.mem_cons, Prod.mk.injEq, eq_iff_iff]
      constructor
      · rintro ((hr | ⟨rfl, rfl⟩) | ⟨hjk, hmem⟩)
        · exact .inl hr
        · exact .inr ⟨.inl ⟨rfl, rfl⟩, hmem⟩
        · exact .inr ⟨.inr hjk, hmem⟩
      · rintro (hr | ⟨⟨rfl, rfl⟩ | hjk, hmem⟩)
        · exact .inl (.inl hr)
        · exact .inl (.inr ⟨rfl, rfl⟩)
        · exact .inr ⟨hjk, hmem⟩
    · next hunknown =>
      refine (ih h).congr ?_
      congr 1
      funext j k
      simp only [Joined, List.mem_cons, Prod.mk.injEq, eq_iff_iff]
      refine or_congr_right (and_congr_left fun hmem => (or_iff_right ?_).symm)
      rintro ⟨rfl, rfl⟩
      exact hunknown hmem

/-- What a leaf brings to the slot of its root. -/
def addLeaf (root : LeafKey → LeafKey) (e : LeafKey × LeafSlot) (s : LeafSlot) : LeafSlot where
  mergedFrom := if e.1 ≠ root e.1 then s.mergedFrom ++ [e.1] else s.mergedFrom
  addresses := s.addresses ++ e.2.addresses

theorem regroup_eq (h : Descends keys parent) (hn : keys.length ≤ n)
    (es : List (LeafKey × LeafSlot)) (merged : SortedMap LeafKey LeafSlot) :
    regroup n es parent merged = merged.gather (fun e => rootOf keys parent e.1)
      (fun e o => addLeaf (rootOf keys parent) e (o.getD ⟨[], []⟩)) es := by
  induction es generalizing parent merged with
  | nil => rfl
  | cons e es ih =>
    have hfst := find_fst (k := e.1) h hn
    rw [regroup]
    dsimp only
    rw [ih (find_descends h hn), rootOf_find h hn, hfst]
    rfl

theorem foldl_addLeaf {root : LeafKey → LeafKey} {g : LeafKey} (es : List (LeafKey × LeafSlot))
    (hroot : ∀ e ∈ es, root e.1 = g) (s : LeafSlot) :
    es.foldl (fun s e => addLeaf root e s) s =
      ⟨s.mergedFrom ++ (es.map Prod.fst).filter (· ≠ g),
        s.addresses ++ es.flatMap fun e => e.2.addresses⟩ := by
  induction es generalizing s with
  | nil => simp
  | cons e es ih =>
    rw [List.foldl_cons, ih fun d hd => hroot d (List.mem_cons_of_mem e hd), addLeaf,
      hroot e List.mem_cons_self]
    by_cases he : e.1 = g <;> simp [he]

def rootAfter (p : Partition) (edges : List (LeafKey × LeafKey)) : LeafKey → LeafKey :=
  rootOf p.slots.keys (parents p.slots.keys.length p.slots.keys edges id)

/-- The leaves that are put to one root. -/
def group (p : Partition) (root : LeafKey → LeafKey) (g : LeafKey) : List (LeafKey × LeafSlot) :=
  p.slots.entries.filter fun e => root e.1 = g

theorem slots_merge (p : Partition) (edges : List (LeafKey × LeafKey)) :
    (p.merge edges).slots = (SortedMap.empty.gather (fun e => rootAfter p edges e.1)
      (fun e o => addLeaf (rootAfter p edges) e (o.getD ⟨[], []⟩)) p.slots.entries).mapValues
        LeafSlot.sort := by
  have hdesc := parents_descend (descends_id p.slots.keys) (le_refl _) edges
  rw [merge, mergeWith, ofSlots, regroup_eq hdesc (le_refl _)]
  rfl

theorem get?_merge (p : Partition) (edges : List (LeafKey × LeafKey)) (g : LeafKey) :
    (p.merge edges).slots.get? g = if group p (rootAfter p edges) g = [] then none
      else some (LeafSlot.sort ⟨((group p (rootAfter p edges) g).map Prod.fst).filter (· ≠ g),
        (group p (rootAfter p edges) g).flatMap fun e => e.2.addresses⟩) := by
  rw [slots_merge, SortedMap.get?_mapValues, SortedMap.get?_gather]
  change Option.map _ (List.foldl _ none (group p (rootAfter p edges) g)) = _
  split
  · next hnil => rw [hnil]; rfl
  · next hne =>
    have hroot : ∀ e ∈ group p (rootAfter p edges) g, rootAfter p edges e.1 = g := by
      intro e he
      simpa using (List.mem_filter.mp he).2
    rw [foldl_getD (addLeaf (rootAfter p edges)) ⟨[], []⟩ _ hne, foldl_addLeaf _ hroot]
    simp

/-- Only the roots matter. -/
theorem merge_congr {p : Partition} {edges edges' : List (LeafKey × LeafKey)}
    (h : rootAfter p edges = rootAfter p edges') : p.merge edges = p.merge edges' := by
  have hslots : (p.merge edges).slots = (p.merge edges').slots := by
    rw [slots_merge, slots_merge, h]
  cases hp : p.merge edges
  cases hp' : p.merge edges'
  rw [hp, hp'] at hslots
  cases hslots
  rfl

theorem mem_leaves_iff {p : Partition} {l : Leaf} :
    l ∈ p.leaves ↔ p.slots.get? l.key = some ⟨l.mergedFrom, l.addresses⟩ := by
  rw [SortedMap.get?_eq_some_iff, leaves, List.mem_map]
  constructor
  · rintro ⟨e, he, rfl⟩
    exact he
  · intro he
    exact ⟨_, he, rfl⟩

theorem mergedFrom_increasing {p : Partition} {edges : List (LeafKey × LeafKey)} {l : Leaf}
    (hl : l ∈ (p.merge edges).leaves) : l.mergedFrom.Pairwise (· < ·) := by
  rw [mem_leaves_iff, get?_merge] at hl
  split at hl
  · cases hl
  · obtain ⟨hmerged, -⟩ := LeafSlot.mk.inj (Option.some.inj hl)
    rw [← hmerged]
    have hsub := List.filter_sublist (l := p.slots.entries)
      (p := fun e => rootAfter p edges e.1 = l.key)
    have hnodup := (hsub.map Prod.fst).nodup p.slots.keys_nodup
    have hone := (List.perm_insertionSort (· ≤ ·) _).nodup_iff.mpr
      (hnodup.filter fun k => decide (k ≠ l.key))
    exact ((List.pairwise_insertionSort _ _).sortedLE.sortedLT_of_nodup hone).pairwise

end Merge

end Partition

section Components

variable {as : List String} {edges : List (LeafKey × LeafKey)}

def Known (as : List String) (k : LeafKey) : Prop := ∃ a ∈ as, leafKey a = .ok k

/-- A path of edges whose ends are all known, in either direction. -/
def Connected (as : List String) (edges : List (LeafKey × LeafKey)) : LeafKey → LeafKey → Prop :=
  EqvGen fun j k => (j, k) ∈ edges ∧ Known as j ∧ Known as k

/-- The leaves are the components of the keys. -/
structure Components (as : List String) (edges : List (LeafKey × LeafKey)) (p : Partition) :
    Prop where
  together : ∀ a ∈ as, ∀ b ∈ as, ∀ j k, leafKey a = .ok j → leafKey b = .ok k →
    ((∃ l ∈ p.leaves, a ∈ l.addresses ∧ b ∈ l.addresses) ↔ Connected as edges j k)
  least : ∀ l ∈ p.leaves, IsLeast {k | Known as k ∧ Connected as edges l.key k} l.key
  mergedFrom : ∀ l ∈ p.leaves, l.mergedFrom.Pairwise (· < ·) ∧
    ∀ k, k ∈ l.mergedFrom ↔ Known as k ∧ Connected as edges l.key k ∧ k ≠ l.key
  addresses : ∀ l ∈ p.leaves, l.addresses.Pairwise (· < ·) ∧
    ∀ a, a ∈ l.addresses ↔ a ∈ as ∧ ∃ k, leafKey a = .ok k ∧ Connected as edges l.key k
  once : ∀ a ∈ as, ∃! l, l ∈ p.leaves ∧ a ∈ l.addresses

/-- The edges are the same but for their order and orientation. -/
def SameEdges (edges edges' : List (LeafKey × LeafKey)) : Prop :=
  ∀ j k, (j, k) ∈ edges ∨ (k, j) ∈ edges ↔ (j, k) ∈ edges' ∨ (k, j) ∈ edges'

section Built

variable {p : Partition} (hread : ∀ a ∈ as, leafKey a = .ok (keyOf a))
  (hdata : ∀ a ∈ as, isData a = false) (h : Partition.build as = .ok p)

include hread hdata h

theorem mem_entries_build {k : LeafKey} {s : LeafSlot} :
    (k, s) ∈ p.slots.entries ↔ as.filter (keyOf · = k) ≠ [] ∧
      s = LeafSlot.sort ⟨[], as.filter (keyOf · = k)⟩ := by
  rw [← SortedMap.get?_eq_some_iff, Partition.get?_build hread hdata h]
  split
  · next hnil => simp [hnil]
  · next hne =>
    rw [Option.some.injEq, and_iff_right hne]
    exact eq_comm

theorem mem_addresses_entry {e : LeafKey × LeafSlot} (he : e ∈ p.slots.entries) (a : String) :
    a ∈ e.2.addresses ↔ a ∈ as ∧ keyOf a = e.1 := by
  obtain ⟨-, hs⟩ := (mem_entries_build hread hdata h).mp he
  rw [hs]
  simp [LeafSlot.sort, List.mem_filter]

theorem known_iff {k : LeafKey} : Known as k ↔ k ∈ p.slots.keys := by
  have hkeys : k ∈ p.slots.keys ↔ ∃ s, (k, s) ∈ p.slots.entries := by
    simp only [SortedMap.mem_keys_iff, SortedMap.get?_eq_some_iff]
  rw [hkeys]
  simp only [mem_entries_build hread hdata h, exists_and_left, exists_eq, and_true]
  constructor
  · rintro ⟨a, ha, hk⟩
    rw [hread a ha] at hk
    exact List.ne_nil_of_mem (List.mem_filter.mpr ⟨ha, by simpa using hk⟩)
  · intro hne
    obtain ⟨a, ha⟩ := List.exists_mem_of_ne_nil _ hne
    obtain ⟨ha, hk⟩ := List.mem_filter.mp ha
    refine ⟨a, ha, ?_⟩
    rw [hread a ha, of_decide_eq_true hk]

theorem classifies_build (edges : List (LeafKey × LeafKey)) : Classifies p.slots.keys
    (Partition.parents p.slots.keys.length p.slots.keys edges id)
    fun j k => (j, k) ∈ edges ∧ Known as j ∧ Known as k := by
  refine (Partition.parents_classifies (classifies_id _) (le_refl _) edges).congr ?_
  congr 1
  funext j k
  rw [known_iff hread hdata h, known_iff hread hdata h]
  simp [Partition.Joined]

theorem connected_iff {j k : LeafKey} : Connected as edges j k ↔
    Partition.rootAfter p edges j = Partition.rootAfter p edges k :=
  ((classifies_build hread hdata h edges).classes j k).symm

/-- A merged leaf holds the keys and the addresses whose root is its key. -/
theorem mem_merged_leaf {l : Leaf} (hl : l ∈ (p.merge edges).leaves) :
    (∃ k, Known as k ∧ Partition.rootAfter p edges k = l.key) ∧
    (∀ k, k ∈ l.mergedFrom ↔
      Known as k ∧ Partition.rootAfter p edges k = l.key ∧ k ≠ l.key) ∧
    ∀ a, a ∈ l.addresses ↔ a ∈ as ∧ Partition.rootAfter p edges (keyOf a) = l.key := by
  rw [Partition.mem_leaves_iff, Partition.get?_merge] at hl
  split at hl
  · cases hl
  · next hne =>
    obtain ⟨hmerged, haddresses⟩ := LeafSlot.mk.inj (Option.some.inj hl)
    have hgroup (e : LeafKey × LeafSlot) :
        e ∈ Partition.group p (Partition.rootAfter p edges) l.key ↔
          e ∈ p.slots.entries ∧ Partition.rootAfter p edges e.1 = l.key := by
      simp [Partition.group]
    have hknown {k : LeafKey} : Known as k ↔ ∃ s, (k, s) ∈ p.slots.entries := by
      rw [known_iff hread hdata h, SortedMap.mem_keys_iff]
      simp only [SortedMap.get?_eq_some_iff]
    refine ⟨?_, fun k => ?_, fun a => ?_⟩
    · obtain ⟨e, he⟩ := List.exists_mem_of_ne_nil _ hne
      obtain ⟨he, hroot⟩ := (hgroup e).mp he
      exact ⟨e.1, hknown.mpr ⟨e.2, he⟩, hroot⟩
    · rw [← hmerged, hknown]
      simp [hgroup]
      tauto
    · rw [← haddresses]
      simp only [List.mem_insertionSort, List.mem_flatMap, hgroup]
      constructor
      · rintro ⟨e, ⟨he, hroot⟩, ha⟩
        obtain ⟨ha, hkey⟩ := (mem_addresses_entry hread hdata h he a).mp ha
        exact ⟨ha, hkey ▸ hroot⟩
      · rintro ⟨ha, hroot⟩
        obtain ⟨s, hs⟩ := hknown.mp ⟨a, ha, hread a ha⟩
        exact ⟨(keyOf a, s), ⟨hs, hroot⟩,
          (mem_addresses_entry hread hdata h hs a).mpr ⟨ha, rfl⟩⟩

omit hread hdata h in
theorem Partition.leaf_eq_of_key {q : Partition} {l l' : Leaf} (hl : l ∈ q.leaves)
    (hl' : l' ∈ q.leaves) (hkey : l.key = l'.key) : l = l' := by
  have hget := Partition.mem_leaves_iff.mp hl
  rw [hkey, Partition.mem_leaves_iff.mp hl'] at hget
  obtain ⟨hmerged, haddresses⟩ := LeafSlot.mk.inj (Option.some.inj hget)
  cases l
  cases l'
  simp_all

theorem exists_merged_leaf (edges : List (LeafKey × LeafKey)) {a : String} (ha : a ∈ as) :
    ∃ l ∈ (p.merge edges).leaves, l.key = Partition.rootAfter p edges (keyOf a) := by
  obtain ⟨s, hs⟩ : ∃ s, (keyOf a, s) ∈ p.slots.entries := by
    have hknown := (known_iff hread hdata h).mp ⟨a, ha, hread a ha⟩
    simpa only [SortedMap.mem_keys_iff, SortedMap.get?_eq_some_iff] using hknown
  have hmem : (keyOf a, s) ∈ Partition.group p (Partition.rootAfter p edges)
      (Partition.rootAfter p edges (keyOf a)) := by
    simp [Partition.group, hs]
  have hget := Partition.get?_merge p edges (Partition.rootAfter p edges (keyOf a))
  rw [if_neg (List.ne_nil_of_mem hmem)] at hget
  exact ⟨⟨_, _, _⟩, Partition.mem_leaves_iff.mpr hget, rfl⟩

/-- Known keys are in the component of a merged leaf when its key is their root. -/
theorem connected_merged_iff {l : Leaf} (hl : l ∈ (p.merge edges).leaves) {k : LeafKey} :
    Connected as edges l.key k ↔ Partition.rootAfter p edges k = l.key := by
  obtain ⟨⟨j, -, hroot⟩, -, -⟩ := mem_merged_leaf hread hdata h hl
  have hrep := classifies_build hread hdata h edges
  have hself : Partition.rootAfter p edges l.key = l.key := by
    rw [← hroot]
    exact rootOf_rootOf hrep.descends j
  rw [connected_iff hread hdata h, hself]
  exact eq_comm

omit hread in
theorem addresses_merged_perm (edges : List (LeafKey × LeafKey)) :
    (p.merge edges).addresses.Perm as := by
  obtain ⟨hperm, -⟩ := Partition.build_spec h
  have hall : as.filter (!isData ·) = as := List.filter_eq_self.mpr fun a ha => by simp [hdata a ha]
  rw [hall] at hperm
  exact (Partition.addresses_merge p edges).trans hperm

theorem components_merge (hnodup : as.Nodup) : Components as edges (p.merge edges) where
  together := by
    intro a ha b hb j k hj hk
    rw [hread a ha] at hj
    rw [hread b hb] at hk
    cases hj
    cases hk
    rw [connected_iff hread hdata h]
    constructor
    · rintro ⟨l, hl, hal, hbl⟩
      obtain ⟨-, -, hmem⟩ := mem_merged_leaf hread hdata h hl
      exact ((hmem a).mp hal).2.trans ((hmem b).mp hbl).2.symm
    · intro hroots
      obtain ⟨l, hl, hkey⟩ := exists_merged_leaf hread hdata h edges ha
      obtain ⟨-, -, hmem⟩ := mem_merged_leaf hread hdata h hl
      exact ⟨l, hl, (hmem a).mpr ⟨ha, hkey.symm⟩, (hmem b).mpr ⟨hb, (hkey.trans hroots).symm⟩⟩
  least := by
    intro l hl
    obtain ⟨⟨k, hk, hroot⟩, -, -⟩ := mem_merged_leaf hread hdata h hl
    have hrep := classifies_build hread hdata h edges
    have hknown : Known as l.key := by
      rw [known_iff hread hdata h] at hk ⊢
      rw [← hroot]
      exact rootOf_mem hrep.descends hk
    refine ⟨⟨hknown, .refl _⟩, fun j hj => ?_⟩
    rw [← (connected_merged_iff hread hdata h hl).mp hj.2]
    exact rootOf_le hrep.descends j
  mergedFrom := by
    intro l hl
    obtain ⟨-, hmem, -⟩ := mem_merged_leaf hread hdata h hl
    refine ⟨Partition.mergedFrom_increasing hl, fun k => ?_⟩
    rw [hmem, connected_merged_iff hread hdata h hl]
  addresses := by
    intro l hl
    obtain ⟨-, -, hmem⟩ := mem_merged_leaf hread hdata h hl
    have hall : (p.merge edges).addresses.Nodup :=
      (addresses_merged_perm hdata h edges).nodup_iff.mpr hnodup
    have hsorted : l.addresses.Pairwise (· ≤ ·) :=
      (p.merge edges).ordered _ (SortedMap.get?_eq_some_iff.mp (Partition.mem_leaves_iff.mp hl))
    have hone : l.addresses.Nodup := (List.nodup_flatMap.mp hall).1 l hl
    refine ⟨(hsorted.sortedLE.sortedLT_of_nodup hone).pairwise, fun a => ?_⟩
    rw [hmem]
    refine and_congr_right fun ha => ?_
    rw [hread a ha, ← connected_merged_iff hread hdata h hl]
    simp
  once := by
    intro a ha
    obtain ⟨l, hl, hkey⟩ := exists_merged_leaf hread hdata h edges ha
    obtain ⟨-, -, hmem⟩ := mem_merged_leaf hread hdata h hl
    refine ⟨l, ⟨hl, (hmem a).mpr ⟨ha, hkey.symm⟩⟩, fun l' hl' => ?_⟩
    obtain ⟨-, -, hmem'⟩ := mem_merged_leaf hread hdata h hl'.1
    have hkeys : l'.key = l.key := (((hmem' a).mp hl'.2).2.symm).trans hkey.symm
    exact Partition.leaf_eq_of_key hl'.1 hl hkeys

end Built

/-- Reading edges the other way round, or in another order, connects the same keys. -/
theorem connected_congr {edges' : List (LeafKey × LeafKey)} (hsame : SameEdges edges edges') :
    Connected as edges = Connected as edges' := by
  have hle {es es' : List (LeafKey × LeafKey)} (hs : SameEdges es es') {j k : LeafKey}
      (hjk : Connected as es j k) : Connected as es' j k := by
    induction hjk with
    | rel j k hjk =>
      obtain ⟨hmem, hj, hk⟩ := hjk
      rcases (hs j k).mp (.inl hmem) with hmem | hmem
      · exact .rel _ _ ⟨hmem, hj, hk⟩
      · exact .symm _ _ (.rel _ _ ⟨hmem, hk, hj⟩)
    | refl _ => exact .refl _
    | symm _ _ _ ih => exact .symm _ _ ih
    | trans _ _ _ _ _ ihj ihk => exact .trans _ _ _ ihj ihk
  funext j k
  exact propext ⟨hle hsame, hle fun j k => (hsame j k).symm⟩

/-- Every list of managed addresses that read is partitioned, and a merge makes one leaf of each
component. -/
theorem merge_computes_components (x : Externals) (as : List String)
    (hread : ∀ a ∈ as, ∃ steps, parseSteps a = .ok steps) (hdata : ∀ a ∈ as, isData a = false)
    (hnodup : as.Nodup) :
    ∃ p, Partition.build as = .ok p ∧ ∀ edges, Components as edges (p.merge edges) ∧
      ((p.merge edges).bijection x as).ok = true ∧
      ∀ edges', SameEdges edges edges' → p.merge edges' = p.merge edges := by
  have hkeys : ∀ a ∈ as, leafKey a = .ok (keyOf a) := by
    intro a ha
    obtain ⟨steps, hsteps⟩ := hread a ha
    exact leafKey_of_parseSteps hsteps
  obtain ⟨p, hp⟩ := Partition.build_ok hkeys hnodup hdata
  refine ⟨p, hp, fun edges => ⟨components_merge hkeys hdata hp hnodup, ?_, fun edges' hsame => ?_⟩⟩
  · have hall : as.filter (!isData ·) = as :=
      List.filter_eq_self.mpr fun a ha => by simp [hdata a ha]
    have hperm := addresses_merged_perm hdata hp edges
    unfold Partition.bijection
    rw [hall]
    exact bijection_of_perm hperm.symm (hperm.nodup_iff.mpr hnodup)
  · have hsame' : Connected as edges' = Connected as edges := (connected_congr hsame).symm
    exact Partition.merge_congr ((classifies_build hkeys hdata hp edges').roots_eq
      (classifies_build hkeys hdata hp edges) hsame')

/-- Two keyed resources and one that neither names. -/
def keyedZones : List String := ["zone.a[\"k\"]", "record.b[\"k\"]", "zone.c"]

theorem keyed_zones_are_components : ∃ p, Partition.build keyedZones = .ok p ∧
    ∀ edges, Components keyedZones edges (p.merge edges) ∧
      ((p.merge edges).bijection (knownTexts []) keyedZones).ok = true ∧
      ∀ edges', SameEdges edges edges' → p.merge edges' = p.merge edges := by
  refine merge_computes_components (knownTexts []) keyedZones ?_ (by decide +kernel)
    (by decide +kernel)
  intro a ha
  rcases List.mem_cons.mp ha with rfl | ha
  · exact ⟨[⟨"zone", none⟩, ⟨"a", some "k"⟩], by decide +kernel⟩
  · rcases List.mem_cons.mp ha with rfl | ha
    · exact ⟨[⟨"record", none⟩, ⟨"b", some "k"⟩], by decide +kernel⟩
    · rw [List.mem_singleton.mp ha]
      exact ⟨[⟨"zone", none⟩, ⟨"c", none⟩], by decide +kernel⟩

end Components

end PangeaOperator.Migrate

import Mathlib
import PangeaOperator.Lib.SortedMap
import PangeaOperator.Lib.UnionFind
import PangeaOperator.LeafAddress
import PangeaOperator.StateDocument

/-!
# Partitions of addresses

`pangea-leaf`, `partition.rs`. The managed addresses of a state are grouped by their leaf keys, and
leaves that refer to each other may be merged. Neither loses an address or places one twice.
-/

namespace PangeaOperator.Migrate

/-- Keys are ordered by their kind, then by their text. -/
def LeafKey.place : LeafKey → Nat ×ₗ String
  | .keyed s => toLex (0, s)
  | .module s => toLex (1, s)
  | .address s => toLex (2, s)

theorem place_injective : Function.Injective LeafKey.place := by
  intro a b h
  cases a <;> cases b <;> simp_all [LeafKey.place]

instance : LinearOrder LeafKey where
  __ := PartialOrder.lift LeafKey.place place_injective
  le_total a b := le_total a.place b.place
  toDecidableLE a b := inferInstanceAs (Decidable (a.place ≤ b.place))
  toDecidableLT a b := inferInstanceAs (Decidable (a.place < b.place))
  toDecidableEq := inferInstance

inductive PartitionError where
  | address (e : AddressError)
  | duplicate (address : String)
  deriving Repr, DecidableEq

structure Leaf where
  key : LeafKey
  mergedFrom : List LeafKey
  addresses : List String
  deriving Repr, DecidableEq

/-- What a partition holds for a key. -/
structure LeafSlot where
  mergedFrom : List LeafKey
  addresses : List String
  deriving Repr, DecidableEq

structure Partition where
  slots : SortedMap LeafKey LeafSlot
  ordered : ∀ e ∈ slots.entries, e.2.addresses.Pairwise (· ≤ ·)

def LeafSlot.sort (s : LeafSlot) : LeafSlot where
  mergedFrom := s.mergedFrom.insertionSort (· ≤ ·)
  addresses := s.addresses.insertionSort (· ≤ ·)

namespace Partition

/-- Every slot sorted. -/
def ofSlots (m : SortedMap LeafKey LeafSlot) : Partition where
  slots := m.mapValues LeafSlot.sort
  ordered := by
    intro e he
    obtain ⟨s, -, rfl⟩ := List.mem_map.mp he
    exact List.pairwise_insertionSort _ _

def leaves (p : Partition) : List Leaf :=
  p.slots.entries.map fun e => ⟨e.1, e.2.mergedFrom, e.2.addresses⟩

def buildFrom : List String → List String → SortedMap LeafKey LeafSlot →
    Except PartitionError (SortedMap LeafKey LeafSlot)
  | [], _, m => .ok m
  | a :: rest, seen, m =>
    if a ∈ seen then .error (.duplicate a)
    else
      match leafKey a with
      | .error e => .error (.address e)
      | .ok key =>
        buildFrom rest (a :: seen) (m.upsert key fun s =>
          let s := s.getD ⟨[], []⟩
          { s with addresses := s.addresses ++ [a] })

/-- `Partition::build` -/
def build (addresses : List String) : Except PartitionError Partition :=
  (buildFrom (addresses.filter (!isData ·)) [] SortedMap.empty).map ofSlots

/-- Edges to unknown keys are passed over. -/
def parents (fuel : Nat) (keys : List LeafKey) : List (LeafKey × LeafKey) → (LeafKey → LeafKey) →
    (LeafKey → LeafKey)
  | [], parent => parent
  | e :: edges, parent =>
    parents fuel keys edges
      (if e.1 ∈ keys ∧ e.2 ∈ keys then UnionFind.union fuel parent e.1 e.2 else parent)

/-- Every slot is put to the root of its key; finding a root changes the parents. -/
def regroup (fuel : Nat) : List (LeafKey × LeafSlot) → (LeafKey → LeafKey) →
    SortedMap LeafKey LeafSlot → SortedMap LeafKey LeafSlot
  | [], _, merged => merged
  | e :: es, parent, merged =>
    let (root, parent) := UnionFind.find fuel parent e.1
    regroup fuel es parent (merged.upsert root fun s =>
      let s := s.getD ⟨[], []⟩
      { mergedFrom := if e.1 ≠ root then s.mergedFrom ++ [e.1] else s.mergedFrom
        addresses := s.addresses ++ e.2.addresses })

def mergeWith (fuel : Nat) (p : Partition) (edges : List (LeafKey × LeafKey)) : Partition :=
  ofSlots (regroup fuel p.slots.entries (parents fuel p.slots.keys edges id) SortedMap.empty)

/-- `Partition::merge`; a round of its loops for every key is enough. -/
def merge (p : Partition) (edges : List (LeafKey × LeafKey)) : Partition :=
  p.mergeWith p.slots.keys.length edges

/-- The leaf that holds an address; a binary search finds what is in an ordered list. -/
def leafOf (p : Partition) (address : String) : Option LeafKey :=
  (p.leaves.find? fun l => address ∈ l.addresses).map Leaf.key

structure Bijection where
  countBefore : Nat
  countAfter : Nat
  hashBefore : String
  hashAfter : String
  disjoint : Bool
  ok : Bool
  deriving Repr, DecidableEq

/-- The addresses of all leaves. -/
def addresses (p : Partition) : List String := p.leaves.flatMap Leaf.addresses

/-- `Partition::bijection` -/
def bijection (x : Externals) (p : Partition) (before : List String) : Bijection :=
  let before := before.filter (!isData ·)
  let b := Migrate.bijection x before p.addresses
  ⟨before.length, p.addresses.length, b.before, b.after, b.disjoint, b.ok⟩

section Addresses

variable {p : Partition} {m : SortedMap LeafKey LeafSlot}

def carried (m : SortedMap LeafKey LeafSlot) : List String :=
  m.entries.flatMap fun e => e.2.addresses

theorem addresses_eq_carried (p : Partition) : p.addresses = carried p.slots := by
  rw [addresses, leaves, List.flatMap_map, carried]

theorem addresses_ofSlots (m : SortedMap LeafKey LeafSlot) :
    (ofSlots m).addresses.Perm (carried m) := by
  rw [addresses_eq_carried, carried, carried]
  change ((m.entries.map _).flatMap _).Perm _
  rw [List.flatMap_map]
  exact List.Perm.flatMap_left _ fun e _ => List.perm_insertionSort _ _

/-- The keys of the leaves increase. -/
theorem keys_leaves (p : Partition) : p.leaves.map Leaf.key = p.slots.keys := by
  rw [leaves, List.map_map]
  rfl

/-- A slot that takes some addresses adds them to what is held. -/
theorem carried_upsert (m : SortedMap LeafKey LeafSlot) (key : LeafKey) {g : LeafSlot → LeafSlot}
    {ys : List String} (h : ∀ s, (g s).addresses = s.addresses ++ ys) :
    (carried (m.upsert key fun s => g (s.getD ⟨[], []⟩))).Perm (ys ++ carried m) := by
  refine flatMap_upsertEntry fun o => ?_
  rw [h]
  cases o with
  | none => exact List.perm_append_comm
  | some s => exact List.perm_append_comm

theorem buildFrom_spec {as seen : List String} {out : SortedMap LeafKey LeafSlot}
    (h : buildFrom as seen m = .ok out) :
    (carried out).Perm (as ++ carried m) ∧ as.Nodup ∧ ∀ a ∈ as, a ∉ seen := by
  induction as generalizing seen m with
  | nil =>
    cases h
    exact ⟨.refl _, .nil, nofun⟩
  | cons a rest ih =>
    unfold buildFrom at h
    split at h
    · cases h
    · next hseen =>
      split at h
      · cases h
      · next key hkey =>
        obtain ⟨hperm, hnodup, hfresh⟩ := ih h
        refine ⟨?_, List.nodup_cons.mpr ⟨fun ha => hfresh a ha List.mem_cons_self, hnodup⟩, ?_⟩
        · have hadd := carried_upsert m key
            (g := fun s => { s with addresses := s.addresses ++ [a] }) fun _ => rfl
          exact hperm.trans ((hadd.append_left rest).trans List.perm_middle)
        · intro b hb
          rcases List.mem_cons.mp hb with rfl | hb
          · exact hseen
          · exact fun hmem => hfresh b hb (List.mem_cons_of_mem a hmem)

/-- A partition holds the addresses that are not data, none of which came twice. -/
theorem build_spec {as : List String} (h : build as = .ok p) :
    p.addresses.Perm (as.filter (!isData ·)) ∧ (as.filter (!isData ·)).Nodup := by
  unfold build at h
  cases hm : buildFrom (as.filter (!isData ·)) [] SortedMap.empty with
  | error e =>
    rw [hm] at h
    cases h
  | ok m =>
    rw [hm] at h
    cases h
    obtain ⟨hperm, hnodup, -⟩ := buildFrom_spec hm
    exact ⟨(addresses_ofSlots m).trans (by simpa [carried, SortedMap.empty] using hperm), hnodup⟩

theorem carried_regroup (fuel : Nat) (es : List (LeafKey × LeafSlot)) (parent : LeafKey → LeafKey)
    (merged : SortedMap LeafKey LeafSlot) :
    (carried (regroup fuel es parent merged)).Perm
      (es.flatMap (fun e => e.2.addresses) ++ carried merged) := by
  induction es generalizing parent merged with
  | nil => exact .refl _
  | cons e es ih =>
    refine (ih _ _).trans ?_
    have hadd := carried_upsert merged (UnionFind.find fuel parent e.1).1 (g := fun s =>
      { mergedFrom := if e.1 ≠ (UnionFind.find fuel parent e.1).1 then s.mergedFrom ++ [e.1]
          else s.mergedFrom
        addresses := s.addresses ++ e.2.addresses }) fun _ => rfl
    rw [List.flatMap_cons, List.append_assoc]
    exact (hadd.append_left _).trans (List.perm_append_comm_assoc _ _ _)

theorem addresses_merge (p : Partition) (edges : List (LeafKey × LeafKey)) :
    (p.merge edges).addresses.Perm p.addresses := by
  rw [addresses_eq_carried p]
  refine (addresses_ofSlots _).trans ((carried_regroup _ _ _ _).trans ?_)
  simp [carried, SortedMap.empty]

end Addresses

section Rounds

open UnionFind

variable {keys : List LeafKey} {n : Nat} {parent : LeafKey → LeafKey}

theorem parents_descend (h : Descends keys parent) (hn : keys.length ≤ n)
    (edges : List (LeafKey × LeafKey)) : Descends keys (parents n keys edges parent) := by
  induction edges generalizing parent with
  | nil => exact h
  | cons e edges ih =>
    refine ih ?_
    split
    · next hmem => exact union_descends h hn hmem.1 hmem.2
    · exact h

theorem parents_ends (h : Descends keys parent) (hn : keys.length ≤ n)
    (edges : List (LeafKey × LeafKey)) :
    parents (n + 1) keys edges parent = parents n keys edges parent := by
  induction edges generalizing parent with
  | nil => rfl
  | cons e edges ih =>
    rw [parents, parents]
    by_cases hmem : e.1 ∈ keys ∧ e.2 ∈ keys
    · rw [if_pos hmem, if_pos hmem, union_ends h hn, ih (union_descends h hn hmem.1 hmem.2)]
    · rw [if_neg hmem, if_neg hmem, ih h]

theorem regroup_ends (h : Descends keys parent) (hn : keys.length ≤ n)
    (es : List (LeafKey × LeafSlot)) (merged : SortedMap LeafKey LeafSlot) :
    regroup (n + 1) es parent merged = regroup n es parent merged := by
  induction es generalizing parent merged with
  | nil => rfl
  | cons e es ih =>
    rw [regroup, regroup, find_ends h hn]
    exact ih (find_descends h hn) _

/-- The loops of a merge come to their end. -/
theorem mergeWith_eq_merge (p : Partition) (edges : List (LeafKey × LeafKey))
    (hn : p.slots.keys.length ≤ n) : p.mergeWith n edges = p.merge edges := by
  induction n, hn using Nat.le_induction with
  | base => rfl
  | succ n hn ih =>
    have hid := descends_id p.slots.keys
    rw [mergeWith, parents_ends hid hn, regroup_ends (parents_descend hid hn edges) hn]
    exact ih

end Rounds

end Partition

end PangeaOperator.Migrate

import Mathlib
import PangeaOperator.Lib.SortedMap
import PangeaOperator.Lib.Spread

/-!
# When leaves are checked for drift

`pangea-leaf`, `drift.rs`. The leaves of a catalog are ranked by the digest of their names and
placed evenly over the interval. A leaf is due when a slot has begun since it was checked last.
Times are `u64`; only the end of a slot can pass them.
-/

namespace PangeaOperator.LeafDrift

structure DriftLeaf where
  name : String
  lastCheck : Option Nat
  deriving DecidableEq, Repr

section Placement

variable {H : Type} [LinearOrder H] (hashOf : String → H)

def nameOf (p : H ×ₗ String) : String := (ofLex p).2

/-- `dedup_by` on the names, behind one that was kept. -/
def dedupFrom (kept : String) : List (H ×ₗ String) → List (H ×ₗ String)
  | [] => []
  | p :: rest => if nameOf p = kept then dedupFrom kept rest else p :: dedupFrom (nameOf p) rest

def dedupByName : List (H ×ₗ String) → List (H ×ₗ String)
  | [] => []
  | p :: rest => p :: dedupFrom (nameOf p) rest

def rankedNames (names : List String) : List (H ×ₗ String) :=
  dedupByName ((names.map fun n => toLex (hashOf n, n)).insertionSort (· ≤ ·))

def offsets (names : List String) (intervalSecs : Nat) : SortedMap String Nat :=
  let ranked := rankedNames hashOf names
  SortedMap.ofList (ranked.mapIdx fun rank p =>
    (nameOf p, Spread.place (max intervalSecs 1) (max ranked.length 1) rank))

end Placement

def lastSlot (offset now intervalSecs : Nat) : Option Nat :=
  if now < offset then none else some (now - (now - offset) % max intervalSecs 1)

def isDue (offset now intervalSecs : Nat) (lastCheck : Option Nat) : Bool :=
  match lastSlot offset now intervalSecs, lastCheck with
  | none, _ => false
  | some _, none => true
  | some slot, some last => last < slot

def u64Max : Nat := 2 ^ 64 - 1

def nextDueIn (offset now intervalSecs : Nat) (lastCheck : Option Nat) : Nat :=
  if isDue offset now intervalSecs lastCheck then 0
  else
    let next := match lastSlot offset now (max intervalSecs 1) with
      | some slot => (slot + max intervalSecs 1) % (u64Max + 1)
      | none => offset
    next - now

section Due

variable {H : Type} [LinearOrder H] (hashOf : String → H)

def driftDue (leaves : List DriftLeaf) (now intervalSecs : Nat) : List String :=
  let placed := offsets hashOf (leaves.map DriftLeaf.name) intervalSecs
  (((leaves.filter fun l => (placed.get? l.name).any
    fun o => isDue o now intervalSecs l.lastCheck).map DriftLeaf.name).insertionSort (· ≤ ·)).dedup

end Due

section Ranked

variable {H : Type} [LinearOrder H] (hashOf : String → H)

/-- Sorted pairs whose digests are those of their names: the names that are left increase, and none
is lost. -/
theorem dedupFrom_spec {p : H ×ₗ String} {rest : List (H ×ₗ String)}
    (hsorted : (p :: rest).Pairwise (· ≤ ·))
    (hform : ∀ q ∈ p :: rest, q = toLex (hashOf (nameOf q), nameOf q)) :
    (p :: dedupFrom (nameOf p) rest).Pairwise (· < ·) ∧
      ∀ q, q ∈ p :: dedupFrom (nameOf p) rest ↔ q ∈ p :: rest := by
  induction rest generalizing p with
  | nil => exact ⟨List.pairwise_singleton _ _, fun q => Iff.rfl⟩
  | cons q rest ih =>
    rw [List.pairwise_cons] at hsorted
    have hq := hform q (List.mem_cons_of_mem p List.mem_cons_self)
    have hp := hform p List.mem_cons_self
    rw [dedupFrom]
    split
    · next hname =>
      have hsame : q = p := by rw [hq, hp, hname]
      subst hsame
      obtain ⟨hlt, hmem⟩ := ih hsorted.2 fun r hr => hform r (List.mem_cons_of_mem q hr)
      exact ⟨hlt, fun r => by rw [hmem]; simp⟩
    · next hname =>
      obtain ⟨hlt, hmem⟩ := ih hsorted.2 fun r hr => hform r (List.mem_cons_of_mem p hr)
      refine ⟨List.pairwise_cons.mpr ⟨fun r hr => ?_, hlt⟩, fun r => ?_⟩
      · have hpq : p < q := lt_of_le_of_ne (hsorted.1 q List.mem_cons_self)
          fun h => hname (congrArg nameOf h.symm)
        rcases List.mem_cons.mp hr with rfl | hr
        · exact hpq
        · exact hpq.trans ((List.pairwise_cons.mp hlt).1 r hr)
      · rw [List.mem_cons, hmem, ← List.mem_cons]

theorem rankedNames_spec (names : List String) :
    (rankedNames hashOf names).Pairwise (· < ·) ∧
      ∀ q, q ∈ rankedNames hashOf names ↔ ∃ n ∈ names, toLex (hashOf n, n) = q := by
  have hmem (q : H ×ₗ String) :
      q ∈ (names.map fun n => toLex (hashOf n, n)).insertionSort (· ≤ ·) ↔
        ∃ n ∈ names, toLex (hashOf n, n) = q := by
    rw [List.mem_insertionSort, List.mem_map]
  have hsorted := List.pairwise_insertionSort (· ≤ ·) (names.map fun n => toLex (hashOf n, n))
  unfold rankedNames
  cases hs : (names.map fun n => toLex (hashOf n, n)).insertionSort (· ≤ ·) with
  | nil =>
    rw [hs] at hmem
    exact ⟨List.Pairwise.nil, hmem⟩
  | cons p rest =>
    rw [hs] at hsorted hmem
    have hform : ∀ q ∈ p :: rest, q = toLex (hashOf (nameOf q), nameOf q) := by
      intro q hq
      obtain ⟨n, -, rfl⟩ := (hmem q).mp hq
      rfl
    obtain ⟨hlt, hkept⟩ := dedupFrom_spec hashOf hsorted hform
    exact ⟨hlt, fun q => (hkept q).trans (hmem q)⟩

/-- Only the set of names matters. -/
theorem rankedNames_congr {names names' : List String} (h : ∀ n, n ∈ names' ↔ n ∈ names) :
    rankedNames hashOf names' = rankedNames hashOf names := by
  obtain ⟨hlt, hmem⟩ := rankedNames_spec hashOf names
  obtain ⟨hlt', hmem'⟩ := rankedNames_spec hashOf names'
  refine hlt'.eq_of_mem_iff hlt fun q => ?_
  simp only [hmem, hmem', h]

theorem rankedNames_map_nameOf_perm (names : List String) :
    ((rankedNames hashOf names).map nameOf).Perm names.dedup := by
  obtain ⟨hlt, hmem⟩ := rankedNames_spec hashOf names
  have hinj : ∀ p ∈ rankedNames hashOf names, ∀ q ∈ rankedNames hashOf names,
      nameOf p = nameOf q → p = q := by
    intro p hp q hq hname
    obtain ⟨n, -, rfl⟩ := (hmem p).mp hp
    obtain ⟨m, -, rfl⟩ := (hmem q).mp hq
    exact congrArg (fun n => toLex (hashOf n, n)) hname
  have hnodup : ((rankedNames hashOf names).map nameOf).Nodup :=
    List.Nodup.map_on hinj (hlt.imp ne_of_lt)
  refine (List.perm_ext_iff_of_nodup hnodup (List.nodup_dedup names)).mpr fun n => ?_
  rw [List.mem_dedup, List.mem_map]
  constructor
  · rintro ⟨p, hp, rfl⟩
    obtain ⟨n, hn, rfl⟩ := (hmem p).mp hp
    exact hn
  · intro hn
    exact ⟨_, (hmem _).mpr ⟨n, hn, rfl⟩, rfl⟩

theorem map_fst_mapIdx {α β κ : Type} (key : α → κ) (val : Nat → α → β) (xs : List α) :
    (xs.mapIdx fun i x => (key x, val i x)).map Prod.fst = xs.map key := by
  refine List.ext_getElem? fun i => ?_
  simp only [List.getElem?_map, List.getElem?_mapIdx, Option.map_map, Function.comp_def]

/-- The offsets are those of the ranks, each under the name that has the rank. -/
theorem offsets_entries_perm (names : List String) (intervalSecs : Nat) :
    (offsets hashOf names intervalSecs).entries.Perm
      ((rankedNames hashOf names).mapIdx fun rank p => (nameOf p,
        Spread.place (max intervalSecs 1) (max (rankedNames hashOf names).length 1) rank)) := by
  refine SortedMap.entries_ofList_perm ?_
  rw [map_fst_mapIdx]
  exact (rankedNames_map_nameOf_perm hashOf names).nodup_iff.mpr (List.nodup_dedup names)

/-- The offsets of `n` names are the places of the numbers below `n`. -/
theorem offsets_values_perm {intervalSecs : Nat} (hI : 1 ≤ intervalSecs) (names : List String) :
    (offsets hashOf names intervalSecs).values.Perm
      ((List.range names.dedup.length).map (Spread.place intervalSecs names.dedup.length)) := by
  have hlen : (rankedNames hashOf names).length = names.dedup.length := by
    simpa using (rankedNames_map_nameOf_perm hashOf names).length_eq
  refine ((offsets_entries_perm hashOf names intervalSecs).map Prod.snd).trans
    (List.Perm.of_eq (List.ext_getElem? fun i => ?_))
  rw [List.getElem?_map, List.getElem?_mapIdx, List.getElem?_map, hlen, max_eq_left hI]
  by_cases hi : i < names.dedup.length
  · rw [List.getElem?_eq_getElem (hlen ▸ hi), List.getElem?_range hi, max_eq_left (by omega)]
    rfl
  · rw [List.getElem?_eq_none (by omega), List.getElem?_eq_none (by simpa using hi)]
    rfl

theorem get?_offsets_isSome_iff (names : List String) (intervalSecs : Nat) (name : String) :
    (∃ o, (offsets hashOf names intervalSecs).get? name = some o) ↔ name ∈ names := by
  rw [← SortedMap.mem_keys_iff, offsets, SortedMap.mem_keys_ofList, map_fst_mapIdx,
    (rankedNames_map_nameOf_perm hashOf names).mem_iff, List.mem_dedup]

theorem get?_offsets_lt {names : List String} {intervalSecs o : Nat} {name : String}
    (hI : 1 ≤ intervalSecs) (ho : (offsets hashOf names intervalSecs).get? name = some o) :
    o < intervalSecs := by
  have hval : o ∈ (offsets hashOf names intervalSecs).values :=
    List.mem_map_of_mem (SortedMap.get?_eq_some_iff.mp ho)
  rw [(offsets_values_perm hashOf hI names).mem_iff, List.mem_map] at hval
  obtain ⟨rank, hrank, rfl⟩ := hval
  exact Spread.place_lt (List.mem_range.mp hrank) hI

theorem offsets_congr {names names' : List String} (h : ∀ n, n ∈ names' ↔ n ∈ names)
    (intervalSecs : Nat) :
    offsets hashOf names' intervalSecs = offsets hashOf names intervalSecs := by
  rw [offsets, offsets, rankedNames_congr hashOf h]

/-- The names of a catalog are spread over the interval, whatever their digests: in any seconds
that follow each other round the interval there are no more offsets than these seconds' share,
rounded up. -/
theorem offsets_spread_evenly (names : List String) (intervalSecs : Nat) (hI : 1 ≤ intervalSecs) :
    (∀ name, (∃ o, (offsets hashOf names intervalSecs).get? name = some o) ↔ name ∈ names) ∧
      (∀ name o, (offsets hashOf names intervalSecs).get? name = some o → o < intervalSecs) ∧
      (∀ names', (∀ n, n ∈ names' ↔ n ∈ names) →
        offsets hashOf names' intervalSecs = offsets hashOf names intervalSecs) ∧
      ∀ start width, width ≤ intervalSecs →
        (offsets hashOf names intervalSecs).values.countP
            (fun o => Spread.InWindow intervalSecs start width o) ≤
          (names.dedup.length * width) ⌈/⌉ intervalSecs := by
  refine ⟨get?_offsets_isSome_iff hashOf names intervalSecs,
    fun name o => get?_offsets_lt hashOf hI, fun names' h => offsets_congr hashOf h intervalSecs,
    fun start width hwidth => ?_⟩
  rw [(offsets_values_perm hashOf hI names).countP_eq, List.countP_map]
  exact Spread.window_le hI hwidth start

/-- Two names with one digest still get an offset each. -/
theorem three_names_are_spread :
    (offsets (fun n => n.length) ["zone", "mail", "zone", "dns"] 3600).values.countP
        (fun o => Spread.InWindow 3600 3000 1200 o) ≤ (3 * 1200) ⌈/⌉ 3600 := by
  have h := (offsets_spread_evenly (fun n => n.length) ["zone", "mail", "zone", "dns"] 3600
    (by decide)).2.2.2 3000 1200 (by decide)
  exact h

end Ranked

end PangeaOperator.LeafDrift

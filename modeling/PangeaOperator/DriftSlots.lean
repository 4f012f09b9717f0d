import Mathlib
import PangeaOperator.LeafDrift

/-!
# Once in each slot

From its offset on a leaf's time falls into slots of one interval. What makes a leaf due is that
its last check is before the slot of now, so a check settles the slot it is in and no other. Polls
come in any number and at any distance.
-/

namespace PangeaOperator.LeafDrift

section Slots

/-- The poll times at which a leaf is checked, the last check being the poll. -/
def checks (offset intervalSecs : Nat) : List Nat → Option Nat → List Nat
  | [], _ => []
  | now :: rest, lastCheck =>
    if isDue offset now intervalSecs lastCheck then
      now :: checks offset intervalSecs rest (some now)
    else checks offset intervalSecs rest lastCheck

def InSlot (offset intervalSecs k time : Nat) : Prop :=
  offset + k * max intervalSecs 1 ≤ time ∧ time < offset + (k + 1) * max intervalSecs 1

instance (offset intervalSecs k time : Nat) : Decidable (InSlot offset intervalSecs k time) :=
  inferInstanceAs (Decidable (_ ∧ _))

variable {offset intervalSecs k now : Nat} {lastCheck : Option Nat}

theorem inSlot_iff {time : Nat} : InSlot offset intervalSecs k time ↔
    offset ≤ time ∧ (time - offset) / max intervalSecs 1 = k := by
  have hJ : 0 < max intervalSecs 1 := by omega
  unfold InSlot
  constructor
  · rintro ⟨hfrom, hto⟩
    have hle : offset ≤ time := le_trans (Nat.le_add_right _ _) hfrom
    refine ⟨hle, Nat.div_eq_of_lt_le ?_ ?_⟩ <;> omega
  · rintro ⟨hle, rfl⟩
    have hfrom := Nat.div_mul_le_self (time - offset) (max intervalSecs 1)
    have hto := Nat.lt_mul_div_succ (time - offset) hJ
    rw [Nat.mul_comm] at hto
    omega

/-- A leaf is due in a slot that its last check has not reached. -/
theorem isDue_iff : isDue offset now intervalSecs lastCheck = true ↔
    offset ≤ now ∧ ∀ l ∈ lastCheck, l < offset ∨
      (l - offset) / max intervalSecs 1 < (now - offset) / max intervalSecs 1 := by
  have hJ : 0 < max intervalSecs 1 := by omega
  by_cases hnow : now < offset
  · simp [isDue, lastSlot, hnow]
  have hslot : lastSlot offset now intervalSecs =
      some (offset + (now - offset) / max intervalSecs 1 * max intervalSecs 1) := by
    have hsum := Nat.div_add_mod' (now - offset) (max intervalSecs 1)
    rw [lastSlot, if_neg hnow]
    congr 1
    omega
  unfold isDue
  rw [hslot]
  cases lastCheck with
  | none => simpa using not_lt.mp hnow
  | some l =>
    have hdiv := Nat.div_lt_iff_lt_mul hJ (x := l - offset)
      (y := (now - offset) / max intervalSecs 1)
    simp only [decide_eq_true_eq, Option.mem_def, Option.some.injEq, forall_eq', hdiv]
    omega

/-- Nothing becomes due inside a slot. -/
theorem isDue_add_of_same_slot {d : Nat} (hsame : (now - offset) % max intervalSecs 1 + d <
    max intervalSecs 1) (hnow : offset ≤ now) : isDue offset (now + d) intervalSecs lastCheck =
      isDue offset now intervalSecs lastCheck := by
  have hdiv : (now + d - offset) / max intervalSecs 1 = (now - offset) / max intervalSecs 1 := by
    have hd : d < max intervalSecs 1 := by omega
    rw [Nat.sub_add_comm hnow, Nat.add_div_eq_of_add_mod_lt (by rwa [Nat.mod_eq_of_lt hd]),
      Nat.div_eq_of_lt hd, Nat.add_zero]
  rw [Bool.eq_iff_iff, isDue_iff, isDue_iff, hdiv]
  have hle : offset ≤ now + d := by omega
  simp only [hnow, hle, true_and]

/-- Before its first slot a leaf waits for the offset. -/
theorem nextDueIn_before (hnow : now < offset) :
    nextDueIn offset now intervalSecs lastCheck = offset - now := by
  have hdue : isDue offset now intervalSecs lastCheck = false := by simp [isDue, lastSlot, hnow]
  rw [nextDueIn, if_neg (by simp [hdue]), lastSlot, if_pos hnow]

/-- A leaf that is not due waits for what is left of the slot, whose end is still a `u64`. -/
theorem nextDueIn_within (hnow : offset ≤ now) (hfits : now + max intervalSecs 1 ≤ u64Max)
    (hdue : ¬isDue offset now intervalSecs lastCheck = true) :
    nextDueIn offset now intervalSecs lastCheck =
      max intervalSecs 1 - (now - offset) % max intervalSecs 1 := by
  have hJ : 1 ≤ max intervalSecs 1 := by omega
  have hmod := Nat.mod_lt (now - offset) hJ
  have hmodle := Nat.mod_le (now - offset) (max intervalSecs 1)
  have hslot : lastSlot offset now (max intervalSecs 1) =
      some (now - (now - offset) % max intervalSecs 1) := by
    rw [lastSlot, if_neg (by omega), max_eq_left hJ]
  have hwrap : (now - (now - offset) % max intervalSecs 1 + max intervalSecs 1) % (u64Max + 1) =
      now - (now - offset) % max intervalSecs 1 + max intervalSecs 1 :=
    Nat.mod_eq_of_lt (by omega)
  rw [nextDueIn, if_neg hdue, hslot]
  simp only [hwrap]
  omega

/-- A leaf that was checked by now is due when the next slot begins. -/
theorem isDue_next_slot (hlast : ∀ l ∈ lastCheck, l ≤ now) (hnow : offset ≤ now) :
    isDue offset (now + (max intervalSecs 1 - (now - offset) % max intervalSecs 1)) intervalSecs
      lastCheck = true := by
  have hJ : 0 < max intervalSecs 1 := by omega
  have hmod := Nat.mod_lt (now - offset) hJ
  have hsum := Nat.div_add_mod' (now - offset) (max intervalSecs 1)
  have hnext : now + (max intervalSecs 1 - (now - offset) % max intervalSecs 1) - offset =
      ((now - offset) / max intervalSecs 1 + 1) * max intervalSecs 1 := by
    rw [Nat.add_mul]
    omega
  rw [isDue_iff, hnext, Nat.mul_div_cancel _ hJ]
  refine ⟨by omega, fun l hl => Or.inr (Nat.lt_succ_of_le (Nat.div_le_div_right ?_))⟩
  exact Nat.sub_le_sub_right (hlast l hl) offset

/-- The wait ends with the first moment a leaf is due. -/
theorem nextDueIn_isLeast (hlast : ∀ l ∈ lastCheck, l ≤ now)
    (hfits : now + max intervalSecs 1 ≤ u64Max) :
    IsLeast {d | isDue offset (now + d) intervalSecs lastCheck = true}
      (nextDueIn offset now intervalSecs lastCheck) := by
  by_cases hdue : isDue offset now intervalSecs lastCheck = true
  · rw [nextDueIn, if_pos hdue]
    exact ⟨hdue, fun d _ => Nat.zero_le d⟩
  by_cases hnow : now < offset
  · rw [nextDueIn_before hnow]
    constructor
    · rw [Set.mem_ofPred_eq, Nat.add_sub_cancel' hnow.le, isDue_iff]
      exact ⟨le_refl offset, fun l hl => Or.inl ((hlast l hl).trans_lt hnow)⟩
    · intro d hd
      exact Nat.sub_le_iff_le_add'.mpr (isDue_iff.mp hd).1
  · have hle := not_lt.mp hnow
    rw [nextDueIn_within hle hfits hdue]
    constructor
    · exact isDue_next_slot hlast hle
    · intro d hd
      by_contra hlt
      rw [Set.mem_ofPred_eq, isDue_add_of_same_slot (by omega) hle] at hd
      exact hdue hd

theorem checks_subset (ts : List Nat) : checks offset intervalSecs ts lastCheck ⊆ ts := by
  induction ts generalizing lastCheck with
  | nil => exact List.Subset.refl []
  | cons t ts ih =>
    rw [checks]
    split
    · exact List.cons_subset_cons t ih
    · exact List.subset_cons_of_subset t ih

/-- A leaf that is due at `t` has no check in the slot of `t` before. -/
theorem not_inSlot_of_due {l t : Nat} (hdue : isDue offset t intervalSecs (some l) = true)
    (ht : InSlot offset intervalSecs k t) : ¬InSlot offset intervalSecs k l := by
  have hearlier := (isDue_iff.mp hdue).2 l rfl
  rw [inSlot_iff] at ht ⊢
  omega

/-- A slot that is left is not entered again. -/
theorem not_inSlot_of_left {l t t' : Nat} (hl : InSlot offset intervalSecs k l) (hlt : l ≤ t)
    (ht : ¬InSlot offset intervalSecs k t) (htt : t ≤ t') : ¬InSlot offset intervalSecs k t' := by
  unfold InSlot at *
  omega

/-- A leaf that is not due at `t` was checked in the slot of `t`. -/
theorem inSlot_of_not_due {t : Nat} (hlast : ∀ l ∈ lastCheck, l ≤ t)
    (hdue : ¬isDue offset t intervalSecs lastCheck = true) (ht : InSlot offset intervalSecs k t) :
    ∃ l ∈ lastCheck, InSlot offset intervalSecs k l := by
  rw [inSlot_iff] at ht
  rw [isDue_iff, not_and] at hdue
  obtain ⟨l, hl, hreached⟩ : ∃ l ∈ lastCheck, ¬(l < offset ∨
      (l - offset) / max intervalSecs 1 < (t - offset) / max intervalSecs 1) := by
    simpa using hdue ht.1
  have hdiv : (l - offset) / max intervalSecs 1 ≤ (t - offset) / max intervalSecs 1 :=
    Nat.div_le_div_right (Nat.sub_le_sub_right (hlast l hl) offset)
  refine ⟨l, hl, inSlot_iff.mpr ?_⟩
  omega

/-- Of the checks of a leaf, the last one before the polls with them, a slot holds at most one. -/
theorem countP_checks_le (ts : List Nat) (hts : ts.Pairwise (· ≤ ·))
    (hlast : ∀ l ∈ lastCheck, ∀ t ∈ ts, l ≤ t) (k : Nat) :
    (lastCheck.toList ++ checks offset intervalSecs ts lastCheck).countP
      (InSlot offset intervalSecs k ·) ≤ 1 := by
  induction ts generalizing lastCheck with
  | nil =>
    rw [checks, List.append_nil]
    exact List.countP_le_length.trans (by cases lastCheck <;> simp)
  | cons t ts ih =>
    rw [List.pairwise_cons] at hts
    rw [checks]
    split
    · next hdue =>
      have hfrom : ∀ l ∈ some t, ∀ t' ∈ ts, l ≤ t' := by simpa using hts.1
      have hrest : (t :: checks offset intervalSecs ts (some t)).countP
          (InSlot offset intervalSecs k ·) ≤ 1 := ih hts.2 hfrom
      cases lastCheck with
      | none => exact hrest
      | some l =>
        rw [Option.toList_some, List.singleton_append, List.countP_cons]
        by_cases hl : InSlot offset intervalSecs k l
        · have hleft := fun ht => not_inSlot_of_due hdue ht hl
          have hlt := hlast l rfl t List.mem_cons_self
          have hnone : (t :: checks offset intervalSecs ts (some t)).countP
              (InSlot offset intervalSecs k ·) = 0 := by
            refine List.countP_eq_zero.mpr fun t' ht' => ?_
            rw [decide_eq_true_eq]
            rcases List.mem_cons.mp ht' with rfl | ht'
            · exact hleft
            · exact not_inSlot_of_left hl hlt hleft (hts.1 t' (checks_subset ts ht'))
          rw [hnone]
          split <;> omega
        · rw [if_neg (by simpa using hl)]
          exact hrest
    · exact ih hts.2 fun l hl t' ht' => hlast l hl t' (List.mem_cons_of_mem t ht')

/-- A slot that holds a poll holds a check. -/
theorem exists_check {ts : List Nat} (hts : ts.Pairwise (· ≤ ·))
    (hlast : ∀ l ∈ lastCheck, ∀ t ∈ ts, l ≤ t)
    (hpoll : ∃ t ∈ ts, InSlot offset intervalSecs k t) :
    ∃ t ∈ lastCheck.toList ++ checks offset intervalSecs ts lastCheck,
      InSlot offset intervalSecs k t := by
  induction ts generalizing lastCheck with
  | nil => simp at hpoll
  | cons t ts ih =>
    rw [List.pairwise_cons] at hts
    obtain ⟨t', ht', hin⟩ := hpoll
    rw [checks]
    split
    · next hdue =>
      rcases List.mem_cons.mp ht' with rfl | ht'
      · exact ⟨t', by simp, hin⟩
      · have hfrom : ∀ l ∈ some t, ∀ t' ∈ ts, l ≤ t' := by simpa using hts.1
        obtain ⟨c, hc, hcin⟩ := ih hts.2 hfrom ⟨t', ht', hin⟩
        exact ⟨c, List.mem_append_right _ hc, hcin⟩
    · next hdue =>
      rcases List.mem_cons.mp ht' with rfl | ht'
      · obtain ⟨l, hl, hlin⟩ := inSlot_of_not_due
          (fun l hl => hlast l hl t' List.mem_cons_self) hdue hin
        exact ⟨l, List.mem_append_left _ (Option.mem_toList.mpr hl), hlin⟩
      · exact ih hts.2 (fun l hl c hc => hlast l hl c (List.mem_cons_of_mem t hc)) ⟨t', ht', hin⟩

end Slots

section Polls

variable {H : Type} [LinearOrder H] (hashOf : String → H)

/-- A poll at `now` checks the leaves that are due. -/
def poll (leaves : List DriftLeaf) (now intervalSecs : Nat) : List DriftLeaf :=
  let due := driftDue hashOf leaves now intervalSecs
  leaves.map fun l => if l.name ∈ due then { l with lastCheck := some now } else l

/-- The polls of a run with the names that were due at each. -/
def pollLog (intervalSecs : Nat) : List DriftLeaf → List Nat → List (Nat × List String)
  | _, [] => []
  | leaves, now :: rest => (now, driftDue hashOf leaves now intervalSecs) ::
      pollLog intervalSecs (poll hashOf leaves now intervalSecs) rest

def checksOf (name : String) (log : List (Nat × List String)) : List Nat :=
  (log.filter fun e => name ∈ e.2).map Prod.fst

variable {hashOf} {leaves : List DriftLeaf} {now intervalSecs : Nat}

theorem checksOf_cons (name : String) (e : Nat × List String) (log : List (Nat × List String)) :
    checksOf name (e :: log) =
      if name ∈ e.2 then e.1 :: checksOf name log else checksOf name log := by
  rw [checksOf, List.filter_cons]
  split <;> simp_all [checksOf]

theorem mem_driftDue {name : String} : name ∈ driftDue hashOf leaves now intervalSecs ↔
    ∃ l ∈ leaves, l.name = name ∧
      ∃ o, (offsets hashOf (leaves.map DriftLeaf.name) intervalSecs).get? l.name = some o ∧
        isDue o now intervalSecs l.lastCheck = true := by
  rw [driftDue, List.mem_dedup, List.mem_insertionSort, List.mem_map]
  refine exists_congr fun l => ?_
  rw [List.mem_filter, Option.any_eq_true]
  exact ⟨fun h => ⟨h.1.1, h.2, h.1.2⟩, fun h => ⟨⟨h.1, h.2.2⟩, h.2.1⟩⟩

theorem map_name_poll : (poll hashOf leaves now intervalSecs).map DriftLeaf.name =
    leaves.map DriftLeaf.name := by
  rw [poll, List.map_map]
  refine List.map_congr_left fun l _ => ?_
  rw [Function.comp_apply]
  split <;> rfl

/-- Each name stands for one leaf. -/
def OneLeafEach (leaves : List DriftLeaf) : Prop :=
  ∀ l ∈ leaves, ∀ l' ∈ leaves, l.name = l'.name → l = l'

theorem OneLeafEach.poll (h : OneLeafEach leaves) :
    OneLeafEach (poll hashOf leaves now intervalSecs) := by
  intro l hl l' hl' hname
  rw [LeafDrift.poll, List.mem_map] at hl hl'
  obtain ⟨a, ha, rfl⟩ := hl
  obtain ⟨b, hb, rfl⟩ := hl'
  have hab : a = b := h a ha b hb (by split at hname <;> split at hname <;> exact hname)
  rw [hab]

/-- The log of a run shows for each leaf the checks of its own offset. -/
theorem checksOf_pollLog (hone : OneLeafEach leaves) {l : DriftLeaf} (hl : l ∈ leaves) {o : Nat}
    (ho : (offsets hashOf (leaves.map DriftLeaf.name) intervalSecs).get? l.name = some o)
    (ts : List Nat) : checksOf l.name (pollLog hashOf intervalSecs leaves ts) =
      checks o intervalSecs ts l.lastCheck := by
  induction ts generalizing leaves l with
  | nil => rfl
  | cons t ts ih =>
    have hdue : l.name ∈ driftDue hashOf leaves t intervalSecs ↔
        isDue o t intervalSecs l.lastCheck = true := by
      rw [mem_driftDue]
      constructor
      · rintro ⟨l', hl', hname, o', ho', hdue⟩
        obtain rfl := hone l' hl' l hl hname
        rwa [Option.some.inj (ho.symm.trans ho')]
      · exact fun hdue => ⟨l, hl, rfl, o, ho, hdue⟩
    have hnext : (if l.name ∈ driftDue hashOf leaves t intervalSecs
        then { l with lastCheck := some t } else l) ∈ poll hashOf leaves t intervalSecs :=
      List.mem_map_of_mem hl
    have hrest := ih hone.poll hnext
    rw [map_name_poll] at hrest
    rw [pollLog, checks, checksOf_cons]
    by_cases h : isDue o t intervalSecs l.lastCheck = true
    · rw [if_pos (hdue.mpr h)] at hrest
      rw [if_pos (hdue.mpr h), if_pos h, hrest ho]
    · rw [if_neg (mt hdue.mp h)] at hrest
      rw [if_neg (mt hdue.mp h), if_neg h, hrest ho]

end Polls

/-- Drift slots are exact: the wait ends with the first moment a leaf is due, and the checks of a
leaf, its last one before a run and those the run's polls make, are one in each slot that holds
a poll. -/
theorem drift_slots_are_exact {H : Type} [LinearOrder H] (hashOf : String → H) :
    (∀ offset now intervalSecs lastCheck, (∀ l ∈ lastCheck, l ≤ now) →
      now + max intervalSecs 1 ≤ u64Max →
        IsLeast {d | isDue offset (now + d) intervalSecs lastCheck = true}
          (nextDueIn offset now intervalSecs lastCheck)) ∧
      (∀ offset intervalSecs lastCheck, ∀ ts : List Nat, ts.Pairwise (· ≤ ·) →
        (∀ l ∈ lastCheck, ∀ t ∈ ts, l ≤ t) → ∀ k,
          (lastCheck.toList ++ checks offset intervalSecs ts lastCheck).countP
              (InSlot offset intervalSecs k ·) ≤ 1 ∧
            ((∃ t ∈ ts, InSlot offset intervalSecs k t) →
              ∃ t ∈ lastCheck.toList ++ checks offset intervalSecs ts lastCheck,
                InSlot offset intervalSecs k t)) ∧
      ∀ leaves intervalSecs, OneLeafEach leaves → ∀ l ∈ leaves, ∃ o,
        (offsets hashOf (leaves.map DriftLeaf.name) intervalSecs).get? l.name = some o ∧
          ∀ ts, checksOf l.name (pollLog hashOf intervalSecs leaves ts) =
            checks o intervalSecs ts l.lastCheck := by
  refine ⟨fun offset now intervalSecs lastCheck => nextDueIn_isLeast,
    fun offset intervalSecs lastCheck ts hts hlast k =>
      ⟨countP_checks_le ts hts hlast k, exists_check hts hlast⟩,
    fun leaves intervalSecs hone l hl => ?_⟩
  have hname : l.name ∈ leaves.map DriftLeaf.name := List.mem_map_of_mem hl
  obtain ⟨o, ho⟩ := (get?_offsets_isSome_iff hashOf _ intervalSecs l.name).mpr hname
  exact ⟨o, ho, checksOf_pollLog hone hl ho⟩

/-- A leaf that was never checked, polled before its offset, twice in its first slot and once in the
second. -/
theorem fresh_leaf_waits_and_is_checked_once :
    IsLeast {d | isDue 100 (50 + d) 3600 none = true} (nextDueIn 100 50 3600 none) ∧
      (checks 100 3600 [50, 150, 200, 3700] none).countP (InSlot 100 3600 0 ·) ≤ 1 ∧
      (∃ t ∈ checks 100 3600 [50, 150, 200, 3700] none, InSlot 100 3600 1 t) := by
  have h := drift_slots_are_exact String.length
  have hrun := h.2.1 100 3600 none [50, 150, 200, 3700] (by decide) (by simp)
  exact ⟨h.1 100 50 3600 none (by simp) (by decide), (hrun 0).1, (hrun 1).2 (by decide)⟩

/-- An interval of 0 is taken as one second: at the last moment of a `u64` the end of the slot
wraps round, and the wait of a leaf checked at that moment is over at once. -/
theorem wait_wraps_round : ¬∀ offset now intervalSecs lastCheck, offset ≤ u64Max →
    (∀ l ∈ lastCheck, l ≤ now) → now + intervalSecs ≤ u64Max →
      IsLeast {d | isDue offset (now + d) intervalSecs lastCheck = true}
        (nextDueIn offset now intervalSecs lastCheck) := by
  intro h
  have hleast := h 0 u64Max 0 (some u64Max) (by decide) (by simp) (by decide)
  have hwait : nextDueIn 0 u64Max 0 (some u64Max) = 0 := by decide +kernel
  rw [hwait] at hleast
  have hdue : isDue 0 (u64Max + 0) 0 (some u64Max) = true := hleast.1
  exact absurd hdue (by decide +kernel)

end PangeaOperator.LeafDrift

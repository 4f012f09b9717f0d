import PangeaOperator.Lib.SortedMap
import PangeaOperator.Lib.SqlTable

/-!
# Groups by key

A list of values for every key, keys in the order they were first met. `entries`
reads the groups back as one list of keyed values: extending a group adds to it,
taking a group out takes that key's values and no others.
-/

namespace PangeaOperator

section Groups

variable {κ α : Type}

def entries (gs : List (κ × List α)) : List (κ × α) := gs.flatMap fun g => g.2.map (g.1, ·)

@[simp] theorem entries_nil : entries ([] : List (κ × List α)) = [] := rfl
@[simp] theorem entries_cons (g : κ × List α) (gs : List (κ × List α)) :
    entries (g :: gs) = g.2.map (g.1, ·) ++ entries gs := rfl

theorem mem_keys_of_mem_entries {gs : List (κ × List α)} {e : κ × α} (h : e ∈ entries gs) :
    e.1 ∈ gs.map Prod.fst := by
  obtain ⟨g, hg, he⟩ := List.mem_flatMap.mp h
  obtain ⟨x, -, rfl⟩ := List.mem_map.mp he
  exact List.mem_map_of_mem hg

variable [DecidableEq κ]

/-- Append to the group of that key, or open one at the end. -/
def assocExtend (k : κ) (xs : List α) : List (κ × List α) → List (κ × List α)
  | [] => [(k, xs)]
  | g :: gs => if g.1 = k then (k, g.2 ++ xs) :: gs else g :: assocExtend k xs gs

/-- The group of that key, empty when there is none. -/
def assocAt (gs : List (κ × List α)) (k : κ) : List α := ((assocGet gs k).map Prod.snd).getD []

theorem assocAt_cons (g : κ × List α) (gs : List (κ × List α)) (k : κ) :
    assocAt (g :: gs) k = if g.1 = k then g.2 else assocAt gs k := by
  unfold assocAt assocGet
  by_cases hg : g.1 = k
  · simp [hg]
  · simp [hg]

theorem assocAt_extend (gs : List (κ × List α)) (j k : κ) (xs : List α) :
    assocAt (assocExtend k xs gs) j = assocAt gs j ++ if k = j then xs else [] := by
  induction gs with
  | nil =>
    rw [assocExtend, assocAt_cons]
    rfl
  | cons g gs ih =>
    by_cases hg : g.1 = k
    · subst k
      simp only [assocExtend, if_pos, assocAt_cons]
      split <;> simp
    · simp only [assocExtend, if_neg hg, assocAt_cons, ih]
      by_cases hj : g.1 = j
      · have hk : k ≠ j := by
          intro hk
          exact hg (hj.trans hk.symm)
        simp [hj, hk]
      · simp [hj]

theorem mem_keys_extend (gs : List (κ × List α)) (j k : κ) (xs : List α) :
    j ∈ (assocExtend k xs gs).map Prod.fst ↔ j = k ∨ j ∈ gs.map Prod.fst := by
  induction gs with
  | nil => simp [assocExtend]
  | cons g gs ih =>
    by_cases hg : g.1 = k
    · simp [assocExtend, hg]
    · simp only [assocExtend, if_neg hg, List.map_cons, List.mem_cons, ih]
      exact or_left_comm

theorem keys_nodup_extend {gs : List (κ × List α)} (h : (gs.map Prod.fst).Nodup) (k : κ)
    (xs : List α) : ((assocExtend k xs gs).map Prod.fst).Nodup := by
  induction gs with
  | nil => simp [assocExtend]
  | cons g gs ih =>
    rw [List.map_cons, List.nodup_cons] at h
    by_cases hg : g.1 = k
    · subst k
      simpa [assocExtend] using h
    · simp only [assocExtend, if_neg hg, List.map_cons, List.nodup_cons]
      refine ⟨?_, ih h.2⟩
      intro hm
      rcases (mem_keys_extend gs g.1 k xs).mp hm with hk | hk
      · exact hg hk
      · exact h.1 hk

theorem entries_extend (gs : List (κ × List α)) (k : κ) (xs : List α) :
    (entries (assocExtend k xs gs)).Perm (entries gs ++ xs.map (k, ·)) := by
  induction gs with
  | nil => simp [assocExtend]
  | cons g gs ih =>
    by_cases hg : g.1 = k
    · subst k
      simp only [assocExtend, if_pos, entries_cons, List.map_append, List.append_assoc]
      exact List.Perm.append_left _ List.perm_append_comm
    · simp only [assocExtend, if_neg hg, entries_cons, List.append_assoc]
      exact List.Perm.append_left _ ih

theorem assocErase_cons (g : κ × List α) (gs : List (κ × List α)) (k : κ) :
    assocErase (g :: gs) k = if g.1 = k then assocErase gs k else g :: assocErase gs k := by
  unfold assocErase
  by_cases hg : g.1 = k
  · simp [hg]
  · simp [hg]

theorem mem_keys_erase {gs : List (κ × List α)} {j k : κ} :
    j ∈ (assocErase gs k).map Prod.fst ↔ j ∈ gs.map Prod.fst ∧ j ≠ k := by
  simp only [assocErase, List.mem_map, List.mem_filter]
  constructor
  · rintro ⟨g, ⟨hg, hk⟩, rfl⟩
    exact ⟨⟨g, hg, rfl⟩, by simpa using hk⟩
  · rintro ⟨⟨g, hg, rfl⟩, hk⟩
    exact ⟨g, ⟨hg, by simpa using hk⟩, rfl⟩

/-- Taking one group out. -/
theorem entries_erase {gs : List (κ × List α)} (h : (gs.map Prod.fst).Nodup) (k : κ) :
    (entries gs).Perm ((assocAt gs k).map (k, ·) ++ entries (assocErase gs k)) := by
  induction gs with
  | nil => simp [assocAt, assocGet, assocErase]
  | cons g gs ih =>
    rw [List.map_cons, List.nodup_cons] at h
    rw [assocAt_cons, assocErase_cons]
    by_cases hg : g.1 = k
    · subst k
      rw [if_pos rfl, if_pos rfl, assocErase_of_not_mem h.1, entries_cons]
    · rw [if_neg hg, if_neg hg, entries_cons, entries_cons]
      have hswap : (g.2.map (g.1, ·) ++ ((assocAt gs k).map (k, ·) ++
          entries (assocErase gs k))).Perm ((assocAt gs k).map (k, ·) ++
            (g.2.map (g.1, ·) ++ entries (assocErase gs k))) := by
        rw [← List.append_assoc, ← List.append_assoc]
        exact List.Perm.append_right _ List.perm_append_comm
      exact (List.Perm.append_left _ (ih h.2)).trans hswap

end Groups

section SortedGroups

variable {κ α : Type} [LinearOrder κ]

/-- Append to the group of that key, or open one at its place in the order of the keys. -/
def sortedPush (k : κ) (x : α) : List (κ × List α) → List (κ × List α)
  | [] => [(k, [x])]
  | g :: gs =>
    if k = g.1 then (k, g.2 ++ [x]) :: gs
    else if k < g.1 then (k, [x]) :: g :: gs
    else g :: sortedPush k x gs

theorem sortedPush_eq_upsertEntry (k : κ) (x : α) (gs : List (κ × List α)) :
    sortedPush k x gs = upsertEntry k (fun xs => xs.getD [] ++ [x]) gs := by
  induction gs with
  | nil => rfl
  | cons g gs ih => rw [sortedPush, upsertEntry, ih]; rfl

theorem entries_sortedPush (k : κ) (x : α) (gs : List (κ × List α)) :
    (entries (sortedPush k x gs)).Perm ((k, x) :: entries gs) := by
  have hpush : ((upsertEntry k (fun xs => xs.getD [] ++ [x]) gs).flatMap fun g =>
      g.2.map (g.1, ·)).Perm ([(k, x)] ++ gs.flatMap fun g => g.2.map (g.1, ·)) := by
    apply flatMap_upsertEntry
    intro xs
    cases xs with
    | none => exact .refl _
    | some xs =>
      rw [Option.getD_some, List.map_append]
      exact List.perm_append_comm
  rw [sortedPush_eq_upsertEntry]
  exact hpush

theorem keys_sorted_sortedPush {gs : List (κ × List α)}
    (h : (gs.map Prod.fst).Pairwise (· < ·)) (k : κ) (x : α) :
    ((sortedPush k x gs).map Prod.fst).Pairwise (· < ·) := by
  rw [sortedPush_eq_upsertEntry]
  exact keys_sorted_upsertEntry h

end SortedGroups

/-- Sorting a list into numbered groups and joining the groups again. -/
theorem flatMap_filter_perm {α : Type} (key : α → Option Nat) (l : List α) (n : Nat) :
    ((List.range n).flatMap fun i => l.filter (key · = some i)).Perm
      (l.filter fun a => (key a).any (· < n)) := by
  induction n with
  | zero => simp
  | succ n ih =>
    have hlow : l.filter (fun a => (key a).any (· < n)) =
        (l.filter fun a => (key a).any (· < n + 1)).filter (fun a => (key a).any (· < n)) := by
      rw [List.filter_filter]
      apply List.filter_congr
      intro a _
      cases key a with
      | none => rfl
      | some i =>
        rw [Bool.eq_iff_iff]
        simp only [Option.any_some, Bool.and_eq_true, decide_eq_true_eq]
        omega
    have hlast : l.filter (key · = some n) =
        (l.filter fun a => (key a).any (· < n + 1)).filter (fun a => !(key a).any (· < n)) := by
      rw [List.filter_filter]
      apply List.filter_congr
      intro a _
      cases key a with
      | none => rfl
      | some i =>
        rw [Bool.eq_iff_iff]
        simp only [Option.any_some, Option.some.injEq, Bool.and_eq_true, Bool.not_eq_true',
          decide_eq_false_iff_not, decide_eq_true_eq]
        omega
    rw [List.range_succ, List.flatMap_append]
    have hjoin := List.filter_append_perm (fun a => (key a).any (· < n))
      (l.filter fun a => (key a).any (· < n + 1))
    rw [← hlow, ← hlast] at hjoin
    simpa using (ih.append_right _).trans hjoin

/-- A relabelling that keeps a key which tells the elements apart permutes the list only by
leaving every element alone. -/
theorem map_perm_self_iff {α β : Type} {f : α → α} {key : α → β} {l : List α}
    (hkey : ∀ x ∈ l, key (f x) = key x) (hnd : (l.map key).Nodup) :
    (l.map f).Perm l ↔ ∀ x ∈ l, f x = x := by
  constructor
  · intro hp x hx
    have hfx : f x ∈ l := hp.mem_iff.mp (List.mem_map_of_mem hx)
    exact List.inj_on_of_nodup_map hnd hfx hx (hkey x hx)
  · intro h
    rw [List.map_congr_left h, List.map_id']

end PangeaOperator

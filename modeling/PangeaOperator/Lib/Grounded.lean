import Mathlib

/-!
# What waits on a cycle

A relation of points that wait for others. Over finitely many points, one is stuck when what it
waits for leads to a cycle, and what is not stuck is found by sweeps: each takes up the points all
of whose awaited ones were found before.
-/

namespace PangeaOperator

open Relation

variable {α : Type} {waits : α → α → Prop} {names : List α} {t : α}

/-- What `t` waits for leads to a cycle. -/
def ReachesCycle (waits : α → α → Prop) (t : α) : Prop :=
  ∃ c, ReflTransGen waits t c ∧ TransGen waits c c

/-- Every chain of waiting from `t` ends. -/
def Grounded (waits : α → α → Prop) (t : α) : Prop := Acc (fun u t => waits t u) t

theorem ReachesCycle.next (h : ReachesCycle waits t) : ∃ u, waits t u ∧ ReachesCycle waits u := by
  obtain ⟨c, hto, hcycle⟩ := h
  rcases hto.cases_head with rfl | ⟨u, hu, hrest⟩
  · obtain ⟨u, hu, hback⟩ := TransGen.head'_iff.mp hcycle
    exact ⟨u, hu, t, hback, hcycle⟩
  · exact ⟨u, hu, c, hrest, hcycle⟩

theorem not_reachesCycle_of_grounded (h : Grounded waits t) : ¬ReachesCycle waits t := by
  induction h with
  | intro t _ ih =>
    intro hcycle
    obtain ⟨u, hu, hnext⟩ := hcycle.next
    exact ih u hu hnext

theorem transGen_of_chain {f : Nat → α} (hf : ∀ n, waits (f n) (f (n + 1))) {i j : Nat}
    (hlt : i < j) : TransGen waits (f i) (f j) := by
  induction j, hlt using Nat.le_induction with
  | base => exact .single (hf i)
  | succ j _ ih => exact ih.tail (hf j)

/-- A chain that does not end comes back to a point of the list. -/
theorem grounded_of_not_reachesCycle (hnames : ∀ t u, waits t u → u ∈ names)
    (h : ¬ReachesCycle waits t) : Grounded waits t := by
  by_contra hnot
  obtain ⟨f, hstart, hf⟩ := not_acc_iff_exists_descending_chain.mp hnot
  have hmem (n : Nat) : f (n + 1) ∈ {u | u ∈ names} := hnames _ _ (hf n)
  obtain ⟨i, j, hlt, hmeet⟩ := names.finite_toSet.exists_lt_map_eq_of_forall_mem hmem
  have hto : TransGen waits t (f (i + 1)) := by
    rw [← hstart]
    exact transGen_of_chain hf (Nat.succ_pos i)
  have hcycle : TransGen waits (f (i + 1)) (f (j + 1)) := transGen_of_chain hf (by omega)
  rw [← hmeet] at hcycle
  exact h ⟨f (i + 1), hto.to_reflTransGen, hcycle⟩

theorem grounded_iff (hnames : ∀ t u, waits t u → u ∈ names) :
    Grounded waits t ↔ ¬ReachesCycle waits t :=
  ⟨not_reachesCycle_of_grounded, grounded_of_not_reachesCycle hnames⟩

/-- No point is stuck when there is no cycle at all. -/
theorem exists_reachesCycle_iff :
    (∃ t, ReachesCycle waits t) ↔ ∃ c, TransGen waits c c := by
  constructor
  · rintro ⟨_, c, -, hcycle⟩
    exact ⟨c, hcycle⟩
  · rintro ⟨c, hcycle⟩
    exact ⟨c, c, .refl, hcycle⟩

/-- A sweep keeps what was found, finds nothing that has an endless chain, and finds every name
that waits for nothing else than what was found. -/
structure Sweep (waits : α → α → Prop) (names : List α) (step : List α → List α) : Prop where
  keeps : ∀ ready, ready ⊆ step ready
  sound : ∀ ready, (∀ t ∈ ready, Grounded waits t) → ∀ t ∈ step ready, Grounded waits t
  takes : ∀ ready, ∀ t ∈ names, (∀ u, waits t u → u ∈ ready) → t ∈ step ready

namespace Sweep

variable {step : List α → List α}

theorem subset_iterate (h : Sweep waits names step) {i j : Nat} (hle : i ≤ j) :
    step^[i] [] ⊆ step^[j] [] := by
  induction j, hle using Nat.le_induction with
  | base => exact List.Subset.refl _
  | succ j _ ih =>
    rw [Function.iterate_succ_apply']
    exact fun _ hu => h.keeps _ (ih hu)

theorem grounded_of_mem (h : Sweep waits names step) {n : Nat} (ht : t ∈ step^[n] []) :
    Grounded waits t := by
  induction n generalizing t with
  | zero => exact absurd ht List.not_mem_nil
  | succ n ih =>
    rw [Function.iterate_succ_apply'] at ht
    exact h.sound _ (fun _ hu => ih hu) t ht

/-- Points found by some sweep each are found by one sweep all. -/
theorem exists_common (h : Sweep waits names step) {us : List α}
    (hus : ∀ u ∈ us, ∃ n, u ∈ step^[n] []) : ∃ n, ∀ u ∈ us, u ∈ step^[n] [] := by
  induction us with
  | nil => exact ⟨0, by simp⟩
  | cons u us ih =>
    obtain ⟨n, hn⟩ := ih fun v hv => hus v (List.mem_cons_of_mem _ hv)
    obtain ⟨m, hm⟩ := hus u List.mem_cons_self
    refine ⟨max m n, List.forall_mem_cons.mpr ⟨?_, fun v hv => ?_⟩⟩
    · exact h.subset_iterate (le_max_left m n) hm
    · exact h.subset_iterate (le_max_right m n) (hn v hv)

/-- The induction is on the chains that end: what a name waits for is found by then. -/
theorem found_of_grounded (h : Sweep waits names step) (hnames : ∀ t u, waits t u → u ∈ names)
    (hground : Grounded waits t) (ht : t ∈ names) : ∃ n, t ∈ step^[n] [] := by
  classical
  induction hground with
  | intro t _ ih =>
    obtain ⟨n, hn⟩ : ∃ n, ∀ u ∈ names.filter fun u => waits t u, u ∈ step^[n] [] := by
      refine h.exists_common fun u hu => ?_
      obtain ⟨hmem, hwaits⟩ := List.mem_filter.mp hu
      exact ih u (of_decide_eq_true hwaits) hmem
    refine ⟨n + 1, ?_⟩
    rw [Function.iterate_succ_apply']
    refine h.takes _ t ht fun u hu => ?_
    exact hn u (List.mem_filter.mpr ⟨hnames t u hu, decide_eq_true hu⟩)

/-- The sweeps find the names that are not stuck, and no others. -/
theorem found_iff (h : Sweep waits names step) (hnames : ∀ t u, waits t u → u ∈ names)
    (ht : t ∈ names) : (∃ n, t ∈ step^[n] []) ↔ ¬ReachesCycle waits t := by
  rw [← grounded_iff hnames]
  constructor
  · rintro ⟨n, hn⟩
    exact h.grounded_of_mem hn
  · intro hground
    exact h.found_of_grounded hnames hground ht

/-- After a sweep that changes nothing no other one finds more. -/
theorem mem_fixed_iff (h : Sweep waits names step) {n : Nat}
    (hfixed : step (step^[n] []) = step^[n] []) : t ∈ step^[n] [] ↔ ∃ m, t ∈ step^[m] [] := by
  constructor
  · exact fun ht => ⟨n, ht⟩
  · rintro ⟨m, hm⟩
    have hsame (k : Nat) : step^[k] (step^[n] []) = step^[n] [] := by
      induction k with
      | zero => rfl
      | succ k ih => rw [Function.iterate_succ_apply', ih, hfixed]
    rw [← hsame m, ← Function.iterate_add_apply]
    exact h.subset_iterate (Nat.le_add_right m n) hm

end Sweep

end PangeaOperator

import Mathlib

/-!
# Even placements on a cycle

Of `n` items the `r`-th stands at `r * period / n` on a cycle of `period` places. A place comes
after an item exactly when the item's number is below a ceiling, so what stands in a window is the
difference of two ceilings, also where the window goes round.
-/

namespace PangeaOperator

namespace Spread

variable {n period start width : Nat}

def place (period n rank : Nat) : Nat := rank * period / n

/-- A place is one of the `width` places from `start` on, taken round the cycle. -/
def InWindow (period start width place : Nat) : Prop :=
  ∃ j < width, (start + j) % period = place

instance (period start width place : Nat) : Decidable (InWindow period start width place) :=
  inferInstanceAs (Decidable (∃ j < width, _))

theorem place_lt {rank : Nat} (hrank : rank < n) (hperiod : 0 < period) :
    place period n rank < period := by
  refine (Nat.div_lt_iff_lt_mul (Nat.zero_lt_of_lt hrank)).mpr ?_
  rw [Nat.mul_comm period n]
  exact Nat.mul_lt_mul_of_pos_right hrank hperiod

theorem lt_ceilDiv_iff {a b : Nat} (hperiod : 0 < period) :
    a < b ⌈/⌉ period ↔ a * period < b := by
  rw [← not_le, ceilDiv_le_iff_le_mul hperiod, not_le, Nat.mul_comm]

/-- The items before a place are those with the least numbers. -/
theorem place_lt_iff {rank t : Nat} (hn : 0 < n) (hperiod : 0 < period) :
    place period n rank < t ↔ rank < (t * n) ⌈/⌉ period := by
  rw [lt_ceilDiv_iff hperiod]
  exact Nat.div_lt_iff_lt_mul hn

theorem ceilDiv_add_le (a b : Nat) (hperiod : 0 < period) :
    (a + b) ⌈/⌉ period ≤ a ⌈/⌉ period + b ⌈/⌉ period := by
  rw [ceilDiv_le_iff_le_mul hperiod, Nat.mul_add]
  exact Nat.add_le_add ((ceilDiv_le_iff_le_mul hperiod).mp (le_refl _))
    ((ceilDiv_le_iff_le_mul hperiod).mp (le_refl _))

theorem ceilDiv_add_mul (a : Nat) (hperiod : 0 < period) :
    (a + n * period) ⌈/⌉ period = a ⌈/⌉ period + n := by
  refine eq_of_forall_lt_iff fun c => ?_
  rw [lt_ceilDiv_iff hperiod]
  by_cases hc : c < n
  · have hlt := Nat.mul_lt_mul_of_pos_right hc hperiod
    omega
  · obtain ⟨d, rfl⟩ := Nat.exists_eq_add_of_le (not_lt.mp hc)
    rw [Nat.add_mul, Nat.add_comm (a ⌈/⌉ period), Nat.add_lt_add_iff_left, lt_ceilDiv_iff hperiod,
      Nat.add_comm a, Nat.add_lt_add_iff_left]

/-- A count over a range, by what each number adds to it. -/
theorem countP_range {p : Nat → Bool} {g : Nat → Nat} (hzero : g 0 = 0)
    (hsucc : ∀ m, g (m + 1) = g m + if p m then 1 else 0) (n : Nat) :
    (List.range n).countP p = g n := by
  induction n with
  | zero => exact hzero.symm
  | succ n ih => rw [List.range_succ, List.countP_append, ih, List.countP_singleton, hsucc]

theorem countP_between (a b : Nat) :
    (List.range n).countP (fun r => a ≤ r ∧ r < b) = min n b - min n a := by
  apply countP_range (g := fun n => min n b - min n a)
  · simp
  · intro m
    simp only [decide_eq_true_eq]
    split <;> omega

theorem countP_outside {a b : Nat} (hba : b ≤ a) :
    (List.range n).countP (fun r => a ≤ r ∨ r < b) = n - min n a + min n b := by
  apply countP_range (g := fun n => n - min n a + min n b)
  · simp
  · intro m
    simp only [decide_eq_true_eq]
    split <;> omega

/-- A window from within the cycle either ends in it or goes round once. -/
theorem inWindow_iff {p : Nat} (hstart : start < period) (hwidth : width ≤ period)
    (hp : p < period) : InWindow period start width p ↔
      if start + width ≤ period then start ≤ p ∧ p < start + width
      else start ≤ p ∨ p < start + width - period := by
  constructor
  · rintro ⟨j, hj, rfl⟩
    by_cases hround : start + j < period
    · rw [Nat.mod_eq_of_lt hround]
      split <;> omega
    · have hmod : (start + j) % period = start + j - period := by
        rw [Nat.mod_eq_sub_mod (not_lt.mp hround), Nat.mod_eq_of_lt (by omega)]
      rw [hmod]
      split <;> omega
  · intro h
    by_cases hle : start ≤ p
    · refine ⟨p - start, ?_, ?_⟩
      · split at h <;> omega
      · rw [Nat.add_sub_cancel' hle, Nat.mod_eq_of_lt hp]
    · refine ⟨p + period - start, ?_, ?_⟩
      · split at h <;> omega
      · have hsum : start + (p + period - start) = p + period := by omega
        rw [hsum, Nat.add_mod_right, Nat.mod_eq_of_lt hp]

theorem inWindow_mod (period start width p : Nat) :
    InWindow period (start % period) width p ↔ InWindow period start width p := by
  refine exists_congr fun j => and_congr_right fun _ => ?_
  rw [Nat.mod_add_mod]

/-- Which items stand in a window that starts within the cycle, by their numbers. -/
theorem inWindow_place_iff {rank : Nat} (hrank : rank < n) (hperiod : 0 < period)
    (hstart : start < period) (hwidth : width ≤ period) :
    InWindow period start width (place period n rank) ↔
      if start + width ≤ period then
        (start * n) ⌈/⌉ period ≤ rank ∧ rank < ((start + width) * n) ⌈/⌉ period
      else (start * n) ⌈/⌉ period ≤ rank ∨ rank < ((start + width - period) * n) ⌈/⌉ period := by
  have hn := Nat.zero_lt_of_lt hrank
  have hfrom : start ≤ place period n rank ↔ (start * n) ⌈/⌉ period ≤ rank := by
    rw [← not_lt, place_lt_iff hn hperiod, not_lt]
  rw [inWindow_iff hstart hwidth (place_lt hrank hperiod), hfrom, place_lt_iff hn hperiod,
    place_lt_iff hn hperiod]

/-- A window holds no more than its share, rounded up. -/
theorem window_le (hperiod : 0 < period) (hwidth : width ≤ period) (start : Nat) :
    (List.range n).countP (fun r => InWindow period start width (place period n r)) ≤
      (n * width) ⌈/⌉ period := by
  obtain ⟨s, hs⟩ : ∃ s, s = start % period := ⟨_, rfl⟩
  have hstart : s < period := hs ▸ Nat.mod_lt start hperiod
  have hfirst : (s * n) ⌈/⌉ period ≤ n :=
    (ceilDiv_le_iff_le_mul hperiod).mpr (Nat.mul_le_mul_right n hstart.le)
  have hsum := ceilDiv_add_le (s * n) (width * n) hperiod
  rw [← Nat.add_mul, Nat.mul_comm width n] at hsum
  have hiff {r : Nat} (hr : r ∈ List.range n) :
      InWindow period start width (place period n r) ↔ if s + width ≤ period then
        (s * n) ⌈/⌉ period ≤ r ∧ r < ((s + width) * n) ⌈/⌉ period
      else (s * n) ⌈/⌉ period ≤ r ∨ r < ((s + width - period) * n) ⌈/⌉ period := by
    rw [← inWindow_mod, ← hs]
    exact inWindow_place_iff (List.mem_range.mp hr) hperiod hstart hwidth
  by_cases hends : s + width ≤ period
  · simp only [if_pos hends] at hiff
    have hwhich : (List.range n).countP (fun r => InWindow period start width (place period n r)) =
        min n (((s + width) * n) ⌈/⌉ period) - min n ((s * n) ⌈/⌉ period) := by
      rw [← countP_between]
      exact List.countP_congr fun r hr => by simpa using hiff hr
    omega
  · simp only [if_neg hends] at hiff
    have hbefore : ((s + width - period) * n) ⌈/⌉ period ≤ (s * n) ⌈/⌉ period := by
      refine (ceilDiv_le_iff_le_mul hperiod).mpr (le_trans (Nat.mul_le_mul_right n ?_)
        ((ceilDiv_le_iff_le_mul hperiod).mp (le_refl _)))
      omega
    have hwhich : (List.range n).countP (fun r => InWindow period start width (place period n r)) =
        n - min n ((s * n) ⌈/⌉ period) + min n (((s + width - period) * n) ⌈/⌉ period) := by
      rw [← countP_outside hbefore]
      exact List.countP_congr fun r hr => by simpa using hiff hr
    -- the window goes round: its end has passed all `n` items once
    have hround : ((s + width) * n) ⌈/⌉ period = ((s + width - period) * n) ⌈/⌉ period + n := by
      rw [← ceilDiv_add_mul _ hperiod, Nat.mul_comm n period, ← Nat.add_mul,
        Nat.sub_add_cancel (by omega)]
    omega

end Spread

end PangeaOperator

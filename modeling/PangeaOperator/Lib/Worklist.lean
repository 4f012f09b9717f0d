import Mathlib

/-!
# A search that marks a point when it is taken up

Points are pushed whenever an edge leads to them, and a point that was taken up before is passed
over. What is put out are the pushed points: each point as often as edges lead to it.
-/

namespace PangeaOperator.Worklist

open Relation

variable {α : Type} {next : α → List α} {points visited stack out : List α} {x root : α}

/-- The points on the stack and those taken up are reached, all that is pushed is kept, and the
output is what was pushed. -/
structure Inv (next : α → List α) (root : α) (stack visited out : List α) : Prop where
  nodup : visited.Nodup
  reached : ∀ x, x ∈ stack ∨ x ∈ visited → ReflTransGen (fun a b => b ∈ next a) root x
  root : root ∈ stack ∨ root ∈ visited
  closed : ∀ x ∈ visited, ∀ y ∈ next x, y ∈ stack ∨ y ∈ visited
  out : out = visited.reverse.flatMap next

theorem Inv.pass (h : Inv next root (x :: stack) visited out) (hx : x ∈ visited) :
    Inv next root stack visited out := by
  have hkeep {y : α} (hy : y ∈ x :: stack ∨ y ∈ visited) : y ∈ stack ∨ y ∈ visited := by
    rcases hy with hy | hy
    · rcases List.mem_cons.mp hy with rfl | hy
      · exact .inr hx
      · exact .inl hy
    · exact .inr hy
  refine ⟨h.nodup, fun y hy => h.reached y ?_, hkeep h.root,
    fun y hy z hz => hkeep (h.closed y hy z hz), h.out⟩
  exact hy.imp_left (List.mem_cons_of_mem x)

theorem Inv.take (h : Inv next root (x :: stack) visited out) (hx : x ∉ visited) :
    Inv next root ((next x).reverse ++ stack) (x :: visited) (out ++ next x) := by
  have hroot := h.reached x (.inl List.mem_cons_self)
  have hkeep {y : α} (hy : y ∈ x :: stack ∨ y ∈ visited) :
      y ∈ (next x).reverse ++ stack ∨ y ∈ x :: visited := by
    simp only [List.mem_cons, List.mem_append] at hy ⊢
    tauto
  refine ⟨List.nodup_cons.mpr ⟨hx, h.nodup⟩, fun y hy => ?_, hkeep h.root, fun y hy z hz => ?_, ?_⟩
  · simp only [List.mem_append, List.mem_reverse, List.mem_cons] at hy
    rcases hy with (hy | hy) | rfl | hy
    · exact hroot.tail hy
    · exact h.reached y (.inl (List.mem_cons_of_mem x hy))
    · exact hroot
    · exact h.reached y (.inr hy)
  · rcases List.mem_cons.mp hy with rfl | hy
    · exact .inl (List.mem_append_left _ (List.mem_reverse.mpr hz))
    · exact hkeep (h.closed y hy z hz)
  · rw [h.out]
    simp

/-- A search that has nothing left to take up has reached all that can be reached. -/
theorem Inv.mem_iff (h : Inv next root [] visited out) :
    x ∈ visited ↔ ReflTransGen (fun a b => b ∈ next a) root x := by
  constructor
  · exact fun hx => h.reached x (.inr hx)
  · intro hx
    induction hx with
    | refl => simpa using h.root
    | tail _ hstep ih => simpa using h.closed _ ih _ hstep

section Search

variable [DecidableEq α] (next)

/-- The search with its stack, the points taken up, the latest first, and what is put out. -/
def search : Nat → List α → List α → List α → Option (List α)
  | 0, _, _, _ => none
  | _ + 1, [], _, out => some out
  | fuel + 1, x :: stack, visited, out =>
    if x ∈ visited then search fuel stack visited out
    else search fuel ((next x).reverse ++ stack) (x :: visited) (out ++ next x)

/-- The pushes that the points not taken up so far can still make. -/
def remaining (points visited : List α) : Nat :=
  (points.map (fun p => if p ∈ visited then 0 else (next p).length)).sum

variable {next}

theorem remaining_cons_le (points : List α) :
    remaining next points (x :: visited) ≤ remaining next points visited := by
  refine List.sum_le_sum fun p _ => ?_
  by_cases hp : p ∈ visited
  · simp [hp]
  · simp only [List.mem_cons, hp, or_false, if_false]
    split <;> omega

/-- A point that is taken up makes its pushes. -/
theorem remaining_cons (hx : x ∉ visited) (hpoint : next x ≠ [] → x ∈ points) :
    remaining next points (x :: visited) + (next x).length ≤ remaining next points visited := by
  by_cases hnext : next x = []
  · simpa [hnext] using remaining_cons_le points
  · obtain ⟨before, after, rfl⟩ := List.append_of_mem (hpoint hnext)
    have hbefore : remaining next before (x :: visited) ≤ remaining next before visited :=
      remaining_cons_le before
    have hafter : remaining next after (x :: visited) ≤ remaining next after visited :=
      remaining_cons_le after
    simp only [remaining, List.map_append, List.map_cons, List.sum_append, List.sum_cons,
      List.mem_cons, true_or, if_true, hx, if_false] at hbefore hafter ⊢
    omega

/-- With more fuel than there are pushes to make the search ends, and has put out the pushes of
every point that is reached. -/
theorem search_of_inv (hpoints : ∀ x, next x ≠ [] → x ∈ points) (fuel : Nat)
    (h : Inv next root stack visited out)
    (hfuel : stack.length + remaining next points visited < fuel) :
    ∃ order : List α, order.Nodup ∧
      (∀ x, x ∈ order ↔ ReflTransGen (fun a b => b ∈ next a) root x) ∧
      search next fuel stack visited out = some (order.flatMap next) := by
  induction fuel generalizing stack visited out with
  | zero => exact absurd hfuel (Nat.not_lt_zero _)
  | succ fuel ih =>
    cases stack with
    | nil =>
      refine ⟨visited.reverse, List.nodup_reverse.mpr h.nodup, fun x => ?_, ?_⟩
      · rw [List.mem_reverse]
        exact h.mem_iff
      · rw [search, h.out]
    | cons x stack =>
      rw [search]
      rw [List.length_cons] at hfuel
      split
      · next hx => exact ih (h.pass hx) (by omega)
      · next hx =>
        have hpush := remaining_cons hx (hpoints x)
        refine ih (h.take hx) ?_
        rw [List.length_append, List.length_reverse]
        omega

/-- From a single point. -/
theorem search_spec (hpoints : ∀ x, next x ≠ [] → x ∈ points) (root : α) :
    ∃ order : List α, order.Nodup ∧
      (∀ x, x ∈ order ↔ ReflTransGen (fun a b => b ∈ next a) root x) ∧
      search next (2 + (points.map (fun p => (next p).length)).sum) [root] [] [] =
        some (order.flatMap next) := by
  refine search_of_inv hpoints _ ⟨List.nodup_nil, ?_, by simp, by simp, rfl⟩ ?_
  · intro x hx
    obtain rfl : x = root := by simpa using hx
    exact .refl
  · simp [remaining]

end Search

end PangeaOperator.Worklist

import Mathlib.Data.List.DropRight

/-!
# Folds where the last word counts

An element that speaks replaces what was read before it, one that is silent leaves it. What is read
at the end is the word of the last element that speaks. Where an element may also wipe out what came
before, it is the last of those behind the last that does.
-/

namespace PangeaOperator

variable {σ α β : Type} {step : σ → α → σ} {word : α → Option β}

theorem getLast?_filterMap_cons_or (word : α → Option β) (x : α) (xs : List α) (o : Option β) :
    ((x :: xs).filterMap word).getLast?.or o =
      (xs.filterMap word).getLast?.or ((word x).or o) := by
  rw [List.filterMap_cons]
  cases word x with
  | none => rw [Option.none_or]
  | some b =>
    rw [List.getLast?_cons, Option.some_or]
    cases (xs.filterMap word).getLast? <;> rfl

theorem foldl_last (read : σ → Option β) (hstep : ∀ s x, read (step s x) = (word x).or (read s))
    (xs : List α) (s : σ) :
    read (xs.foldl step s) = (xs.filterMap word).getLast?.or (read s) := by
  induction xs generalizing s with
  | nil => rfl
  | cons x xs ih => rw [List.foldl_cons, ih, hstep, getLast?_filterMap_cons_or]

/-- The induction is over the list from its end, where it is known whether anything is wiped out. -/
theorem foldl_last_behind {wipes : α → Prop} [DecidablePred wipes] (read : σ → Option β)
    (hstep : ∀ s x, read (step s x) = if wipes x then none else (word x).or (read s)) {s : σ}
    (hs : read s = none) (xs : List α) :
    read (xs.foldl step s) =
      ((xs.rtakeWhile (fun x => ¬ wipes x)).filterMap word).getLast? := by
  induction xs using List.reverseRecOn with
  | nil => exact hs
  | append_singleton xs x ih =>
    rw [List.foldl_append, List.foldl_cons, List.foldl_nil, hstep, List.rtakeWhile_concat, ih]
    by_cases hx : wipes x
    · simp [hx]
    · cases hword : word x <;> simp [hx, hword]

end PangeaOperator

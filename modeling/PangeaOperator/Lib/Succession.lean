import Mathlib.Data.List.Nodup

/-!
# Walking a list from each element to its successor

The successor of a value is what follows its first occurrence. The walk from the head of a
list goes through it in order if no value occurs twice, and never ends otherwise.
-/

namespace PangeaOperator

variable {α : Type} [DecidableEq α]

/-- What follows the first occurrence. -/
def successor (l : List α) (x : α) : Option α :=
  match l with
  | [] => none
  | y :: ys => if y = x then ys.head? else successor ys x

/-- At most so many steps of the walk. -/
def walk (l : List α) : Nat → Option α → List α
  | 0, _ => []
  | _ + 1, none => []
  | n + 1, some x => x :: walk l n (successor l x)

theorem mem_of_successor {l : List α} {x y : α} (h : successor l x = some y) : y ∈ l := by
  induction l with
  | nil => cases h
  | cons z l ih =>
    unfold successor at h
    split at h
    · exact List.mem_cons_of_mem z (List.mem_of_head? h)
    · exact List.mem_cons_of_mem z (ih h)

theorem successor_append_cons {pre : List α} {x : α} (hx : x ∉ pre) (post : List α) :
    successor (pre ++ x :: post) x = post.head? := by
  induction pre with
  | nil => simp [successor]
  | cons y pre ih =>
    obtain ⟨hne, hx⟩ := not_or.mp (mt List.mem_cons.mpr hx)
    simpa [successor, Ne.symm hne] using ih hx

theorem walk_from (pre post : List α) (h : (pre ++ post).Nodup) (n : Nat) :
    walk (pre ++ post) n post.head? = post.take n := by
  induction n generalizing pre post with
  | zero => rfl
  | succ n ih =>
    cases post with
    | nil => rfl
    | cons x post =>
      have hx : x ∉ pre := fun hmem =>
        List.disjoint_of_nodup_append h hmem List.mem_cons_self
      have hrest := ih (pre ++ [x]) post (by simpa using h)
      simp only [List.head?_cons, walk, successor_append_cons hx, List.take_succ_cons]
      rw [← hrest, List.append_assoc, List.singleton_append]

theorem walk_of_nodup {l : List α} (h : l.Nodup) (n : Nat) : walk l n l.head? = l.take n :=
  walk_from [] l h n

theorem exists_repeated {l : List α} (h : ¬l.Nodup) :
    ∃ pre x post, l = pre ++ x :: post ∧ x ∈ pre := by
  induction l with
  | nil => exact absurd List.nodup_nil h
  | cons y l ih =>
    by_cases hy : y ∈ l
    · obtain ⟨before, after, rfl⟩ := List.append_of_mem hy
      exact ⟨y :: before, y, after, rfl, List.mem_cons_self⟩
    · obtain ⟨pre, x, post, rfl, hx⟩ := ih (fun hl => h (List.nodup_cons.mpr ⟨hy, hl⟩))
      exact ⟨y :: pre, x, post, rfl, List.mem_cons_of_mem y hx⟩

/-- In front of a repeated value every value has a successor there. -/
theorem successor_mem {pre : List α} {x y : α} (hx : x ∈ pre) (hy : y ∈ pre) (post : List α) :
    ∃ z ∈ pre, successor (pre ++ x :: post) y = some z := by
  obtain ⟨before, after, rfl, hnot⟩ := List.eq_append_cons_of_mem hy
  rw [List.append_assoc, List.cons_append, successor_append_cons hnot]
  cases after with
  | nil => exact ⟨x, hx, rfl⟩
  | cons z after => exact ⟨z, by simp, rfl⟩

theorem length_walk_of_mem {pre : List α} {x y : α} (hx : x ∈ pre) (hy : y ∈ pre)
    (post : List α) (n : Nat) : (walk (pre ++ x :: post) n (some y)).length = n := by
  induction n generalizing y with
  | zero => rfl
  | succ n ih =>
    obtain ⟨z, hz, hnext⟩ := successor_mem hx hy post
    rw [walk, hnext, List.length_cons, ih hz]

theorem length_walk_of_not_nodup {l : List α} (h : ¬l.Nodup) (n : Nat) :
    (walk l n l.head?).length = n := by
  obtain ⟨pre, x, post, rfl, hx⟩ := exists_repeated h
  cases pre with
  | nil => cases hx
  | cons y pre => exact length_walk_of_mem hx List.mem_cons_self post n

end PangeaOperator

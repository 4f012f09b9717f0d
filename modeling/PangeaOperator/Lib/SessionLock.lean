import Mathlib.Data.List.Basic
import Mathlib.Logic.Function.Basic

/-!
# Counted locks owned by sessions

An exclusive lock belongs to the session that took it. The session may take it again, gives
it back as often as it took it, and nobody else can give it back.
-/

namespace PangeaOperator

/-- A lock that is held: by whom, and how often it was taken beyond the first time. -/
structure Hold (σ : Type) where
  owner : σ
  again : Nat
  deriving DecidableEq, Repr

abbrev Locks (σ κ : Type) := κ → Option (Hold σ)

namespace Locks

section Holds

variable {σ κ : Type} [DecidableEq σ]

def free : Locks σ κ := fun _ => none

/-- How often the session holds the lock. -/
def count (l : Locks σ κ) (s : σ) (k : κ) : Nat :=
  match l k with
  | none => 0
  | some h => if h.owner = s then h.again + 1 else 0

@[simp] theorem count_free (s : σ) (k : κ) : count (free : Locks σ κ) s k = 0 := rfl

end Holds

variable {σ κ : Type} [DecidableEq κ]

def put (l : Locks σ κ) (k : κ) (h : Option (Hold σ)) : Locks σ κ :=
  fun i => if i = k then h else l i

@[simp] theorem put_same (l : Locks σ κ) (k : κ) (h : Option (Hold σ)) : l.put k h k = h :=
  if_pos rfl

@[simp] theorem put_other (l : Locks σ κ) {k i : κ} (hi : i ≠ k) (h : Option (Hold σ)) :
    l.put k h i = l i :=
  if_neg hi

variable [DecidableEq σ]

/-- Take the lock unless another session holds it. -/
def tryLock (l : Locks σ κ) (s : σ) (k : κ) : Bool × Locks σ κ :=
  match l k with
  | none => (true, l.put k (some ⟨s, 0⟩))
  | some h => if h.owner = s then (true, l.put k (some ⟨s, h.again + 1⟩)) else (false, l)

/-- Give the lock back once; nothing happens on a session that does not hold it. -/
def unlock (l : Locks σ κ) (s : σ) (k : κ) : Bool × Locks σ κ :=
  match l k with
  | none => (false, l)
  | some h =>
    if h.owner = s then
      (true, l.put k (if h.again = 0 then none else some ⟨s, h.again - 1⟩))
    else (false, l)

variable (l : Locks σ κ) (s t : σ) (k : κ)

theorem tryLock_granted_iff :
    (l.tryLock s k).1 = true ↔ ∀ o, o ≠ s → l.count o k = 0 := by
  unfold tryLock count
  cases hk : l k with
  | none => simp
  | some h =>
    by_cases ho : h.owner = s
    · simp only [ho, if_true, true_iff]
      intro o hne
      exact if_neg (Ne.symm hne)
    · simp only [ho, if_false, Bool.false_eq_true, false_iff, not_forall]
      exact ⟨h.owner, ho, by simp⟩

theorem count_tryLock (hgranted : (l.tryLock s k).1 = true) :
    (l.tryLock s k).2.count t k = l.count t k + if t = s then 1 else 0 := by
  unfold tryLock count at *
  cases hk : l k with
  | none =>
    by_cases ht : t = s
    · simp [ht]
    · simp [ht, Ne.symm ht]
  | some h =>
    by_cases ho : h.owner = s
    · by_cases ht : t = s
      · simp [ho, ht]
      · simp [ho, ht, Ne.symm ht]
    · simp [hk, ho] at hgranted

theorem count_unlock : (l.unlock s k).2.count t k = l.count t k - if t = s then 1 else 0 := by
  unfold unlock count
  cases hk : l k with
  | none => simp [hk]
  | some h =>
    by_cases ho : h.owner = s
    · by_cases ht : t = s
      · by_cases hz : h.again = 0
        · simp [ho, ht, hz]
        · simp only [ho, ht, hz, if_true, if_false, put_same]
          omega
      · by_cases hz : h.again = 0
        · simp [ho, ht, hz, Ne.symm ht]
        · simp [ho, ht, hz, Ne.symm ht]
    · by_cases ht : t = s
      · simp [ho, ht, hk]
      · simp [ho, ht, hk]

theorem count_tryLock_other {i : κ} (hi : i ≠ k) :
    (l.tryLock s k).2.count t i = l.count t i := by
  have hsame : (l.tryLock s k).2 i = l i := by
    unfold tryLock
    cases l k with
    | none => exact put_other l hi _
    | some h =>
      by_cases ho : h.owner = s
      · simp only [ho, if_true]
        exact put_other l hi _
      · simp only [ho, if_false]
  rw [count, hsame, count]

theorem count_unlock_other {i : κ} (hi : i ≠ k) :
    (l.unlock s k).2.count t i = l.count t i := by
  have hsame : (l.unlock s k).2 i = l i := by
    unfold unlock
    cases l k with
    | none => rfl
    | some h =>
      by_cases ho : h.owner = s
      · simp only [ho, if_true]
        exact put_other l hi _
      · simp only [ho, if_false]
  rw [count, hsame, count]

end Locks

end PangeaOperator

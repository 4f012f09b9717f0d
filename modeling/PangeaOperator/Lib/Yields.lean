import Mathlib.Data.List.Forall2

/-!
# Results under a postcondition

A computation yields a property if it returns a value that has it, or stops with an error of an
allowed kind. With every error allowed this is partial correctness, with none it is total. Where a
value is returned, each part of the computation has returned one.
-/

namespace PangeaOperator

variable {ε α β : Type}

def Yields (allowed : ε → Prop) (r : Except ε α) (P : α → Prop) : Prop :=
  match r with
  | .ok a => P a
  | .error e => allowed e

variable {allowed : ε → Prop} {r : Except ε α} {P Q : α → Prop}

theorem yields_ok {a : α} (h : P a) : Yields allowed (.ok a) P := h

theorem yields_error {e : ε} (h : allowed e) : Yields allowed (.error e) P := h

/-- The rest of a computation starts from what the first part yields. -/
theorem Yields.bind {f : α → Except ε β} {R : β → Prop} (h : Yields allowed r P)
    (hf : ∀ a, P a → Yields allowed (f a) R) : Yields allowed (r >>= f) R := by
  cases r with
  | ok a => exact hf a h
  | error e => exact h

theorem Yields.mono (h : Yields allowed r P) (hp : ∀ a, P a → Q a) : Yields allowed r Q := by
  cases r with
  | ok a => exact hp a h
  | error e => exact h

section Returned

variable {δ : Type}

theorem bind_eq_ok_iff {r : Except ε α} {f : α → Except ε β} {b : β} :
    r >>= f = .ok b ↔ ∃ a, r = .ok a ∧ f a = .ok b := by
  cases r with
  | ok a => simp [bind, Except.bind]
  | error e => simp [bind, Except.bind]

theorem bind_eq_ok {r : Except ε α} {f : α → Except ε β} {b : β} (h : r >>= f = .ok b) :
    ∃ a, r = .ok a ∧ f a = .ok b :=
  bind_eq_ok_iff.mp h

theorem mapError_eq_ok {f : ε → δ} {r : Except ε α} {a : α} (h : r.mapError f = .ok a) :
    r = .ok a := by
  cases r with
  | error e => cases h
  | ok b =>
    cases h
    rfl

theorem toOption_eq_some {r : Except ε α} {a : α} (h : r.toOption = some a) : r = .ok a := by
  cases r with
  | error e => cases h
  | ok b =>
    cases h
    rfl

/-- A check that goes through. -/
theorem check_eq_ok {ok : Bool} {e : ε} {r : Except ε α} {a : α}
    (h : (if ¬ ok = true then .error e else r) = .ok a) : ok = true ∧ r = .ok a := by
  cases ok with
  | false => cases h
  | true => exact ⟨rfl, h⟩

theorem mapM_eq_ok_iff {f : α → Except ε β} {xs : List α} {ys : List β} :
    xs.mapM f = .ok ys ↔ List.Forall₂ (fun x y => f x = .ok y) xs ys := by
  induction xs generalizing ys with
  | nil => cases ys <;> simp [pure, Except.pure]
  | cons x xs ih =>
    rw [List.mapM_cons, List.forall₂_cons_left_iff]
    simp only [bind_eq_ok_iff, ih]
    constructor
    · rintro ⟨y, hy, zs, hzs, h⟩
      cases h
      exact ⟨y, zs, hy, hzs, rfl⟩
    · rintro ⟨y, zs, hy, hzs, rfl⟩
      exact ⟨y, hy, zs, hzs, rfl⟩

variable {R : α → β → Prop} {xs : List α}

theorem exists_forall₂_iff : (∃ ys, List.Forall₂ R xs ys) ↔ ∀ x ∈ xs, ∃ y, R x y := by
  induction xs with
  | nil => simp
  | cons x xs ih =>
    rw [List.forall_mem_cons, ← ih]
    constructor
    · rintro ⟨ys, hys⟩
      obtain ⟨y, ys, hy, hys, -⟩ := List.forall₂_cons_left_iff.mp hys
      exact ⟨⟨y, hy⟩, ys, hys⟩
    · rintro ⟨⟨y, hy⟩, ys, hys⟩
      exact ⟨y :: ys, .cons hy hys⟩

/-- Lists that correspond are the two sides of a list of pairs. -/
theorem exists_pairs_of_forall₂ {ys : List β} (h : List.Forall₂ R xs ys) :
    ∃ zs : List (α × β), xs = zs.map Prod.fst ∧ ys = zs.map Prod.snd ∧ ∀ z ∈ zs, R z.1 z.2 := by
  induction h with
  | nil => exact ⟨[], rfl, rfl, by simp⟩
  | @cons x y xs ys hxy _ ih =>
    obtain ⟨zs, rfl, rfl, hzs⟩ := ih
    exact ⟨(x, y) :: zs, rfl, rfl, List.forall_mem_cons.mpr ⟨hxy, hzs⟩⟩

end Returned

end PangeaOperator

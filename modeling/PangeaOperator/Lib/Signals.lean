import Mathlib.Data.List.Basic

/-!
# Computations with a store and signals

A computation works on a store and ends with a value or with a signal, if it ends at all. A
signal skips what follows until an `attempt` looks at it. `Ensures` is partial correctness with a
store invariant; the postcondition speaks of values and signals.
-/

namespace PangeaOperator

variable {σ ε α β : Type}

def Comp (σ ε α : Type) : Type := σ → Option (Except ε α × σ)

namespace Comp

instance : Monad (Comp σ ε) where
  pure a := fun s => some (.ok a, s)
  bind m f := fun s =>
    match m s with
    | some (.ok a, s) => f a s
    | some (.error e, s) => some (.error e, s)
    | none => none

def signal (e : ε) : Comp σ ε α := fun s => some (.error e, s)

/-- The value or the signal that the computation ends with. -/
def attempt (m : Comp σ ε α) : Comp σ ε (Except ε α) := fun s =>
  (m s).map (fun r => (.ok r.1, r.2))

def answer : Except ε α → Comp σ ε α
  | .ok a => pure a
  | .error e => signal e

def get : Comp σ ε σ := fun s => some (.ok s, s)

def modify (f : σ → σ) : Comp σ ε Unit := fun s => some (.ok (), f s)

/-- It does not end. -/
def diverge : Comp σ ε α := fun _ => none

end Comp

def Ensures (inv : σ → Prop) (m : Comp σ ε α) (post : Except ε α → Prop) : Prop :=
  ∀ s, inv s → ∀ r, m s = some r → inv r.2 ∧ post r.1

section Rules

variable {inv : σ → Prop} {m : Comp σ ε α} {post post' : Except ε α → Prop}

theorem ensures_pure {a : α} (h : post (.ok a)) : Ensures inv (pure a : Comp σ ε α) post := by
  rintro s hs r hr
  cases hr
  exact ⟨hs, h⟩

theorem ensures_signal {e : ε} (h : post (.error e)) :
    Ensures inv (Comp.signal e : Comp σ ε α) post := by
  rintro s hs r hr
  cases hr
  exact ⟨hs, h⟩

theorem ensures_modify {f : σ → σ} {post : Except ε Unit → Prop} (hf : ∀ s, inv s → inv (f s))
    (h : post (.ok ())) : Ensures inv (Comp.modify f : Comp σ ε Unit) post := by
  rintro s hs r hr
  cases hr
  exact ⟨hf s hs, h⟩

/-- The store that is read has the invariant. -/
theorem ensures_get_bind {f : σ → Comp σ ε β} {post : Except ε β → Prop}
    (h : ∀ s, inv s → Ensures inv (f s) post) :
    Ensures inv ((Comp.get : Comp σ ε σ) >>= f) post := by
  intro s hs r hr
  exact h s hs s hs r hr

/-- A signal of the first part is the signal of the whole. -/
theorem Ensures.bind {f : α → Comp σ ε β} {post' : Except ε β → Prop} (hm : Ensures inv m post)
    (hf : ∀ a, post (.ok a) → Ensures inv (f a) post')
    (he : ∀ e, post (.error e) → post' (.error e)) : Ensures inv (m >>= f) post' := by
  intro s hs r hr
  change (match m s with
    | some (.ok a, s) => f a s
    | some (.error e, s) => some (.error e, s)
    | none => none) = some r at hr
  cases hms : m s with
  | none =>
    rw [hms] at hr
    cases hr
  | some q =>
    obtain ⟨q, s'⟩ := q
    obtain ⟨hs', hq⟩ := hm s hs _ hms
    rw [hms] at hr
    cases q with
    | ok a => exact hf a hq s' hs' r hr
    | error e =>
      cases hr
      exact ⟨hs', he e hq⟩

/-- What follows a computation that ends with a value of a kind. -/
theorem Ensures.bind_ok {P : α → Prop} {f : α → Comp σ ε β} {post : Except ε β → Prop}
    (hm : Ensures inv m (fun r => ∃ a, r = .ok a ∧ P a))
    (hf : ∀ a, P a → Ensures inv (f a) post) : Ensures inv (m >>= f) post := by
  refine hm.bind ?_ ?_
  · rintro a ⟨_, ha, hP⟩
    cases ha
    exact hf a hP
  · rintro e ⟨_, he, -⟩
    cases he

/-- An update that keeps the invariant, with what is read before it. -/
theorem ensures_update {f : σ → σ} {g : σ → α} (hf : ∀ s, inv s → inv (f s))
    (hg : ∀ s, inv s → post (.ok (g s))) :
    Ensures inv (do
      let s ← Comp.get
      Comp.modify f
      pure (g s) : Comp σ ε α) post := by
  rintro s hs r hr
  cases hr
  exact ⟨hf s hs, hg s hs⟩

theorem Ensures.attempt (hm : Ensures inv m post) :
    Ensures inv m.attempt (fun r => ∃ q, r = .ok q ∧ post q) := by
  intro s hs r hr
  obtain ⟨q, hq, rfl⟩ := Option.map_eq_some_iff.mp hr
  exact ⟨(hm s hs q hq).1, q.1, rfl, (hm s hs q hq).2⟩

/-- What follows an attempt takes over from whatever the computation ended with. -/
theorem Ensures.attempt_bind {f : Except ε α → Comp σ ε β} {post' : Except ε β → Prop}
    (hm : Ensures inv m post) (hf : ∀ r, post r → Ensures inv (f r) post') :
    Ensures inv (m.attempt >>= f) post' := by
  refine hm.attempt.bind ?_ ?_
  · rintro q ⟨_, hq, hpost⟩
    cases hq
    exact hf q hpost
  · rintro e ⟨_, he, -⟩
    cases he

theorem Ensures.mono (hm : Ensures inv m post) (h : ∀ r, post r → post' r) :
    Ensures inv m post' := fun s hs r hr => ⟨(hm s hs r hr).1, h r.1 (hm s hs r hr).2⟩

end Rules

end PangeaOperator

/-!
# Caches that an epoch invalidates

Each entry carries the epoch in which it was computed, and only an entry of the present
epoch is used. A change of what is cached is safe if it starts a new epoch.
-/

namespace PangeaOperator

abbrev EpochCache (κ ρ : Type) := κ → Option (Nat × ρ)

namespace EpochCache

variable {κ ρ : Type}

def empty : EpochCache κ ρ := fun _ => none

def hit (c : EpochCache κ ρ) (ep : Nat) (k : κ) : Option ρ :=
  match c k with
  | some (e, r) => if e = ep then some r else none
  | none => none

section Store

variable [DecidableEq κ]

def store (c : EpochCache κ ρ) (ep : Nat) (k : κ) (r : ρ) : EpochCache κ ρ :=
  fun k' => if k' = k then some (ep, r) else c k'

/-- The cached answer, or the computed one, which is stored. -/
def fetch (c : EpochCache κ ρ) (ep : Nat) (k : κ) (compute : Option ρ) :
    Option ρ × EpochCache κ ρ :=
  match c.hit ep k with
  | some r => (some r, c)
  | none =>
    match compute with
    | some r => (some r, c.store ep k r)
    | none => (none, c)

end Store

/-- No entry is from a later epoch. -/
def Bounded (c : EpochCache κ ρ) (ep : Nat) : Prop := ∀ k e r, c k = some (e, r) → e ≤ ep

/-- An entry of the present epoch holds what `f` computes. -/
def Current (c : EpochCache κ ρ) (ep : Nat) (f : κ → Option ρ) : Prop :=
  ∀ k r, c k = some (ep, r) → f k = some r

variable {c : EpochCache κ ρ} {ep ep' : Nat} {f g : κ → Option ρ}

theorem bounded_empty : (empty : EpochCache κ ρ).Bounded ep := by
  intro k e r h
  cases h

theorem current_empty : (empty : EpochCache κ ρ).Current ep f := by
  intro k r h
  cases h

theorem Bounded.le (h : c.Bounded ep) (hle : ep ≤ ep') : c.Bounded ep' :=
  fun k e r hk => Nat.le_trans (h k e r hk) hle

/-- In a new epoch nothing cached is used. -/
theorem Bounded.current_of_lt (h : c.Bounded ep) (hlt : ep < ep') : c.Current ep' f := by
  intro k r hk
  exact absurd (h k ep' r hk) (Nat.not_le.mpr hlt)

theorem Current.mono (h : c.Current ep f) (hfg : ∀ k r, f k = some r → g k = some r) :
    c.Current ep g :=
  fun k r hk => hfg k r (h k r hk)

theorem Current.of_hit (h : c.Current ep f) {k : κ} {r : ρ} (hk : c.hit ep k = some r) :
    f k = some r := by
  unfold hit at hk
  split at hk
  · next e r' hc =>
    split at hk
    · next he =>
      obtain rfl : r' = r := Option.some.inj hk
      exact h k r' (he ▸ hc)
    · cases hk
  · cases hk

variable [DecidableEq κ]

theorem Bounded.store (h : c.Bounded ep) (k : κ) (r : ρ) : (c.store ep k r).Bounded ep := by
  intro k' e r' hk
  unfold EpochCache.store at hk
  split at hk
  · obtain ⟨rfl, -⟩ := Prod.mk.inj (Option.some.inj hk)
    exact Nat.le_refl ep
  · exact h k' e r' hk

theorem Current.store (h : c.Current ep f) {k : κ} {r : ρ} (hk : f k = some r) :
    (c.store ep k r).Current ep f := by
  intro k' r' hk'
  unfold EpochCache.store at hk'
  split at hk'
  · next heq =>
    obtain ⟨-, rfl⟩ := Prod.mk.inj (Option.some.inj hk')
    exact heq ▸ hk
  · exact h k' r' hk'

theorem Bounded.fetch (h : c.Bounded ep) (k : κ) (compute : Option ρ) :
    (c.fetch ep k compute).2.Bounded ep := by
  unfold EpochCache.fetch
  split
  · exact h
  · split
    · exact h.store k _
    · exact h

theorem Current.fetch (h : c.Current ep f) (k : κ) : (c.fetch ep k (f k)).2.Current ep f := by
  unfold EpochCache.fetch
  split
  · exact h
  · cases hk : f k with
    | none => exact h
    | some r => exact h.store hk

/-- A current cache answers like the computation. -/
theorem Current.fetch_eq (h : c.Current ep f) (k : κ) : (c.fetch ep k (f k)).1 = f k := by
  unfold EpochCache.fetch
  cases hh : c.hit ep k with
  | some r => exact (h.of_hit hh).symm
  | none => cases f k <;> rfl

end EpochCache

end PangeaOperator

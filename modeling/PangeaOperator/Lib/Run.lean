import Mathlib.Data.List.Basic

/-!
# Runs of a step function

A run folds a step function over a list of events. `Along` states a property of
every transition of a run; it follows from an invariant and the property of one
step taken under that invariant.
-/

namespace PangeaOperator

variable {σ ε : Type}

def run (step : σ → ε → σ) (s : σ) (es : List ε) : σ := es.foldl step s

@[simp] theorem run_nil (step : σ → ε → σ) (s : σ) : run step s [] = s := rfl
@[simp] theorem run_cons (step : σ → ε → σ) (s : σ) (e : ε) (es : List ε) :
    run step s (e :: es) = run step (step s e) es := rfl

theorem run_append (step : σ → ε → σ) (s : σ) (es fs : List ε) :
    run step s (es ++ fs) = run step (run step s es) fs := List.foldl_append

theorem run_invariant {step : σ → ε → σ} {inv : σ → Prop}
    (hstep : ∀ s e, inv s → inv (step s e)) {s : σ} (hs : inv s) (es : List ε) :
    inv (run step s es) := by
  induction es generalizing s with
  | nil => exact hs
  | cons e es ih => exact ih (hstep s e hs)

/-- Every transition of the run has the property. -/
def Along (step : σ → ε → σ) (s : σ) (es : List ε) (P : σ → ε → Prop) : Prop :=
  ∀ pre e post, es = pre ++ e :: post → P (run step s pre) e

theorem along_cons_iff (step : σ → ε → σ) (s : σ) (e : ε) (es : List ε) (P : σ → ε → Prop) :
    Along step s (e :: es) P ↔ P s e ∧ Along step (step s e) es P := by
  constructor
  · intro h
    refine ⟨h [] e es rfl, fun pre e' post he => ?_⟩
    exact h (e :: pre) e' post (congrArg (e :: ·) he)
  · rintro ⟨hfirst, hrest⟩ pre e' post he
    cases pre with
    | nil =>
      cases he
      exact hfirst
    | cons d pre =>
      cases he
      exact hrest pre e' post rfl

theorem along_nil (step : σ → ε → σ) (s : σ) (P : σ → ε → Prop) : Along step s [] P := by
  intro pre e post he
  simp at he

/-- Along a given run a decidable property can be checked. -/
instance decidableAlong (step : σ → ε → σ) (P : σ → ε → Prop) [∀ s e, Decidable (P s e)] :
    ∀ (s : σ) (es : List ε), Decidable (Along step s es P)
  | s, [] => isTrue (along_nil step s P)
  | s, e :: es =>
    have := decidableAlong step P (step s e) es
    decidable_of_iff _ (along_cons_iff step s e es P).symm

theorem along_append_iff (step : σ → ε → σ) (s : σ) (es fs : List ε) (P : σ → ε → Prop) :
    Along step s (es ++ fs) P ↔ Along step s es P ∧ Along step (run step s es) fs P := by
  induction es generalizing s with
  | nil => simp [along_nil]
  | cons e es ih => rw [List.cons_append, along_cons_iff, along_cons_iff, ih, run_cons, and_assoc]

theorem along_of_invariant {step : σ → ε → σ} {inv : σ → Prop} {P : σ → ε → Prop}
    (hstep : ∀ s e, inv s → inv (step s e)) (h : ∀ s e, inv s → P s e) {s : σ} (hs : inv s)
    (es : List ε) : Along step s es P := by
  intro pre e post _
  exact h _ e (run_invariant hstep hs pre)

/-- An invariant that a step keeps under a condition holds at the end of a run that meets it. -/
theorem run_invariant_of_along {step : σ → ε → σ} {inv : σ → Prop} {P : σ → ε → Prop}
    (hstep : ∀ s e, P s e → inv s → inv (step s e)) {s : σ} (hs : inv s) {es : List ε}
    (h : Along step s es P) : inv (run step s es) := by
  induction es generalizing s with
  | nil => exact hs
  | cons e es ih =>
    obtain ⟨hfirst, hrest⟩ := (along_cons_iff step s e es P).mp h
    exact ih (hstep s e hfirst hs) hrest

/-- What the invariant gives at one transition holds along a run that keeps it. -/
theorem along_of_along {step : σ → ε → σ} {inv : σ → Prop} {P Q : σ → ε → Prop}
    (hstep : ∀ s e, P s e → inv s → inv (step s e)) (h : ∀ s e, P s e → inv s → Q s e) {s : σ}
    (hs : inv s) {es : List ε} (hp : Along step s es P) : Along step s es Q := by
  intro pre e post he
  have hfirst := hp pre e post he
  rw [he, along_append_iff] at hp
  exact h _ e hfirst (run_invariant_of_along hstep hs hp.1)

/-- Under an invariant, transitions may be compared one by one. -/
theorem along_congr {step : σ → ε → σ} {inv : σ → Prop} {P Q : σ → ε → Prop}
    (hstep : ∀ s e, inv s → inv (step s e)) (h : ∀ s e, inv s → (P s e ↔ Q s e)) {s : σ}
    (hs : inv s) (es : List ε) : Along step s es P ↔ Along step s es Q := by
  constructor
  · intro hp pre e post he
    exact (h _ e (run_invariant hstep hs pre)).mp (hp pre e post he)
  · intro hq pre e post he
    exact (h _ e (run_invariant hstep hs pre)).mpr (hq pre e post he)

/-- Properties that agree on all transitions hold along the same runs. -/
theorem along_congr_all {step : σ → ε → σ} {P Q : σ → ε → Prop} (h : ∀ s e, P s e ↔ Q s e)
    (s : σ) (es : List ε) : Along step s es P ↔ Along step s es Q := by
  have hsame : P = Q := by
    funext s e
    exact propext (h s e)
  rw [hsame]

/-- Transitions may be compared one by one where the one property keeps the invariant. -/
theorem along_iff_of_kept {step : σ → ε → σ} {inv : σ → Prop} {P Q : σ → ε → Prop}
    (hstep : ∀ s e, Q s e → inv s → inv (step s e)) (h : ∀ s e, inv s → (P s e ↔ Q s e)) {s : σ}
    (hs : inv s) (es : List ε) : Along step s es P ↔ Along step s es Q := by
  induction es generalizing s with
  | nil => exact iff_of_true (along_nil step s P) (along_nil step s Q)
  | cons e es ih =>
    rw [along_cons_iff, along_cons_iff, h s e hs]
    exact and_congr_right (fun hq => ih (hstep s e hq hs))

end PangeaOperator

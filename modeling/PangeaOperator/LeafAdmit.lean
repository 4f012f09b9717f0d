import Mathlib

/-!
# Admission of leaves

`pangea-leaf`, `admit.rs`. Waiting leaves are ranked and taken in order while the pool, the slice of
their scope, the drift reserve and their credential have room.
-/

namespace PangeaOperator.LeafAdmit

inductive WorkClass where
  | apply | change | unblocked | retry | drift
  deriving DecidableEq, Repr

/-- The derived order of the classes. -/
def WorkClass.rank : WorkClass → Nat
  | .apply => 0
  | .change => 1
  | .unblocked => 2
  | .retry => 3
  | .drift => 4

inductive PriorityMode where
  | on | off
  deriving DecidableEq, Repr

structure Candidate where
  name : String
  scope : String
  credential : Option String
  workClass : WorkClass
  depth : Nat
  since : Nat
  deriving DecidableEq, Repr

structure Caps where
  global : Nat
  perScope : Nat
  scopeCaps : String → Option Nat
  perCredential : Nat
  driftSharePermille : Nat
  priority : PriorityMode

def Caps.scopeCap (caps : Caps) (scope : String) : Nat := (caps.scopeCaps scope).getD caps.perScope

/-- The maps of counts, zero where a key is absent. -/
structure InFlight where
  total : Nat
  byScope : String → Nat
  driftByScope : String → Nat
  byCredential : String → Nat

def InFlight.default : InFlight := ⟨0, fun _ => 0, fun _ => 0, fun _ => 0⟩

def setCount (f : String → Nat) (k : String) (n : Nat) : String → Nat :=
  fun s => if s = k then n else f s

def usizeMax : Nat := 2 ^ 64 - 1

def driftSlots (scopeCap sharePermille : Nat) : Nat :=
  if sharePermille = 0 ∨ scopeCap = 0 then 0
  else max 1 (min (min (scopeCap * min sharePermille 1000) usizeMax / 1000) (max (scopeCap - 1) 1))

def age (c : Candidate) : Nat := if c.workClass = .drift then c.since else 0

/-- `a` comes no later than `b` in the order of a mode. -/
def Precedes : PriorityMode → Candidate → Candidate → Prop
  | .on, a, b => a.workClass.rank < b.workClass.rank ∨ a.workClass.rank = b.workClass.rank ∧
      (age a < age b ∨ age a = age b ∧
        (a.depth < b.depth ∨ a.depth = b.depth ∧ a.name ≤ b.name))
  | .off, a, b => a.since < b.since ∨ a.since = b.since ∧ a.name ≤ b.name

instance (mode : PriorityMode) (a b : Candidate) : Decidable (Precedes mode a b) :=
  match mode with
  | .on => inferInstanceAs (Decidable (_ ∨ _ ∧ (_ ∨ _ ∧ (_ ∨ _ ∧ _))))
  | .off => inferInstanceAs (Decidable (_ ∨ _ ∧ _))

def order (candidates : List Candidate) (mode : PriorityMode) : List Candidate :=
  candidates.insertionSort (Precedes mode)

/-- The counts with one more leaf admitted. -/
def InFlight.add (f : InFlight) (c : Candidate) : InFlight where
  total := f.total + 1
  byScope := setCount f.byScope c.scope (f.byScope c.scope + 1)
  driftByScope :=
    if c.workClass = .drift then setCount f.driftByScope c.scope (f.driftByScope c.scope + 1)
    else f.driftByScope
  byCredential := match c.credential with
    | some cred => setCount f.byCredential cred (f.byCredential cred + 1)
    | none => f.byCredential

/-- The scope has a slot, the drift reserve of the scope too where the leaf is drift and the share
is on, and the credential as well where it has one and the cap is on. -/
def Fits (caps : Caps) (f : InFlight) (c : Candidate) : Prop :=
  f.byScope c.scope < caps.scopeCap c.scope ∧
  (c.workClass = .drift → 0 < caps.driftSharePermille →
    f.driftByScope c.scope < driftSlots (caps.scopeCap c.scope) caps.driftSharePermille) ∧
  ∀ cred ∈ c.credential, 0 < caps.perCredential → f.byCredential cred < caps.perCredential

instance (caps : Caps) (f : InFlight) (c : Candidate) : Decidable (Fits caps f c) :=
  inferInstanceAs (Decidable (_ ∧ _ ∧ _))

def admitLoop (caps : Caps) : List Candidate → InFlight → List String
  | [], _ => []
  | c :: cs, f =>
    if caps.global ≤ f.total then []
    else if Fits caps f c then c.name :: admitLoop caps cs (f.add c)
    else admitLoop caps cs f

def admitLeaves (candidates : List Candidate) (caps : Caps) (inFlight : InFlight) : List String :=
  admitLoop caps (order candidates caps.priority) inFlight

section Counts

variable {caps : Caps}

/-- Counts that are no smaller. -/
structure InFlight.Le (f g : InFlight) : Prop where
  total : f.total ≤ g.total
  byScope : ∀ s, f.byScope s ≤ g.byScope s
  driftByScope : ∀ s, f.driftByScope s ≤ g.driftByScope s
  byCredential : ∀ s, f.byCredential s ≤ g.byCredential s

theorem le_setCount (f : String → Nat) (k s : String) : f s ≤ setCount f k (f k + 1) s := by
  unfold setCount
  split
  · next h => rw [h]; exact Nat.le_succ _
  · exact Nat.le_refl _

theorem InFlight.le_add (f : InFlight) (c : Candidate) : f.Le (f.add c) := by
  refine ⟨Nat.le_succ _, le_setCount _ _, fun s => ?_, fun s => ?_⟩
  · unfold add
    dsimp only
    split
    · exact le_setCount _ _ s
    · exact Nat.le_refl _
  · unfold add
    cases c.credential with
    | some cred => exact le_setCount _ _ s
    | none => exact Nat.le_refl _

/-- What fits among more also fits among fewer. -/
theorem Fits.of_le {f g : InFlight} {c : Candidate} (hle : f.Le g) (h : Fits caps g c) :
    Fits caps f c := by
  refine ⟨(hle.byScope _).trans_lt h.1, fun hd hs => ?_, fun cred hc hp => ?_⟩
  · exact (hle.driftByScope _).trans_lt (h.2.1 hd hs)
  · exact (hle.byCredential cred).trans_lt (h.2.2 cred hc hp)

/-- Whoever is admitted would have fitted alone. -/
theorem fits_of_mem_admitLoop {cs : List Candidate} {f : InFlight} {name : String}
    (h : name ∈ admitLoop caps cs f) :
    ∃ c ∈ cs, c.name = name ∧ f.total < caps.global ∧ Fits caps f c := by
  induction cs generalizing f with
  | nil => cases h
  | cons c cs ih =>
    unfold admitLoop at h
    split at h
    · cases h
    · next hroom =>
      split at h
      · next hfits =>
        rcases List.mem_cons.mp h with rfl | h
        · exact ⟨c, List.mem_cons_self, rfl, by omega, hfits⟩
        · obtain ⟨d, hd, hname, -, hfd⟩ := ih h
          exact ⟨d, List.mem_cons_of_mem c hd, hname, by omega, hfd.of_le (f.le_add c)⟩
      · obtain ⟨d, hd, hname, htotal, hfd⟩ := ih h
        exact ⟨d, List.mem_cons_of_mem c hd, hname, htotal, hfd⟩

theorem order_perm (candidates : List Candidate) (mode : PriorityMode) :
    (order candidates mode).Perm candidates := List.perm_insertionSort _ _

theorem fits_of_mem_admitLeaves {candidates : List Candidate} {f : InFlight} {name : String}
    (h : name ∈ admitLeaves candidates caps f) :
    ∃ c ∈ candidates, c.name = name ∧ f.total < caps.global ∧ Fits caps f c := by
  obtain ⟨c, hc, hrest⟩ := fits_of_mem_admitLoop h
  exact ⟨c, (order_perm _ _).mem_iff.mp hc, hrest⟩

end Counts

end PangeaOperator.LeafAdmit

import Mathlib
import PangeaOperator.LeafGateRun

/-!
# The wake-up of a released permit

A release wakes by rank: the best waiter of its scope and the best of the rest. What the caps admit
plays no part in it, so waiters that stay blocked can take both wake-ups.
-/

namespace PangeaOperator.LeafGate

open LeafAdmit

/-- The parts of a permit in the order of their drops. -/
def LeafPermit.parts (p : LeafPermit) : List Part :=
  .scope p.scope :: (p.credential.map Part.credential).toList ++ (p.drift.map Part.drift).toList

/-- The drop of a permit: its parts go back, then the wake-ups are sent. -/
def LeafPermit.drop (x : Shigoto) (p : LeafPermit) (g : Gate) (now : Nat) : List String × Gate :=
  let budgets := g.budgets.releases x p.parts
  let out := p.wake.drop g.queue now
  (out.1, { g with queue := out.2, budgets := budgets })

/-- The counts of the moment. -/
def countsOf (b : Budgets) : InFlight :=
  ⟨b.scopes.totalInFlight, b.scopes.inFlight, b.drift.inFlight, b.credentials.inFlight⟩

/-- What the engine would admit of the live waiting candidates once the parts of a permit are
back. -/
def wouldAdmit (x : Shigoto) (cfg : LeafConfig) (p : LeafPermit) (g : Gate) (now : Nat) :
    List String :=
  let queue := g.queue.retain now
  let budgets := g.budgets.releases x p.parts
  admitLeaves queue.candidates (capsOf cfg budgets.scopes.cfg queue) (countsOf budgets)

/-- Some waiter that sleeps would be admitted. -/
def Awaited (x : Shigoto) (cfg : LeafConfig) (p : LeafPermit) (g : Gate) (now : Nat) : Prop :=
  ∃ c ∈ asleep (g.queue.retain now), c.name ∈ wouldAdmit x cfg p g now

/-- Then some waiter that the drop wakes would be. -/
def NoLostWake (x : Shigoto) (cfg : LeafConfig) (p : LeafPermit) (g : Gate) (now : Nat) : Prop :=
  Awaited x cfg p g now → ∃ name ∈ (p.drop x g now).1, name ∈ wouldAdmit x cfg p g now

/-- The best-ranked of a scope, of all where the scope has none. -/
def bestOf (ranked : List Candidate) (scope : String) : Option Candidate :=
  (ranked.find? (·.scope = scope)).or ranked.head?

/-- The best-ranked sleeper of the released scope would be admitted, or no other sleeper that stays
blocked outranks those that would be. -/
def BestReaches (x : Shigoto) (cfg : LeafConfig) (p : LeafPermit) (g : Gate) (now : Nat) : Prop :=
  let ranked := order (asleep (g.queue.retain now)) p.wake.priority
  let admitted := wouldAdmit x cfg p g now
  Awaited x cfg p g now → ∀ best ∈ bestOf ranked p.wake.scope, best.name ∈ admitted ∨
    ∀ c ∈ ranked.takeWhile (fun c => c.name ∉ admitted), c.name = best.name

section Choice

variable {ranked : List Candidate} {scope : String}

theorem fill_full (cs : List Candidate) {chosen : List String}
    (h : wakePerRelease ≤ chosen.length) : fill cs chosen = chosen := by
  cases cs with
  | nil => rfl
  | cons c cs => rw [fill, if_pos h]

/-- With one name chosen, the first other one is added. -/
theorem fill_one (cs : List Candidate) (name : String) :
    fill cs [name] = name :: ((cs.find? (·.name ≠ name)).map Candidate.name).toList := by
  induction cs with
  | nil => rfl
  | cons c cs ih =>
    rw [fill, if_neg (by simp [wakePerRelease])]
    by_cases hc : c.name = name
    · rw [if_pos (by simp [hc]), ih, List.find?_cons_of_neg (by simp [hc])]
    · rw [if_neg (by simp [hc]), fill_full cs (by simp [wakePerRelease]),
        List.find?_cons_of_pos (by simp [hc])]
      rfl

/-- The best of the scope is chosen, and the best of the others. -/
theorem choose_eq (ranked : List Candidate) (scope : String) : choose ranked scope =
    match bestOf ranked scope with
    | none => []
    | some best =>
      best.name :: ((ranked.find? (·.name ≠ best.name)).map Candidate.name).toList := by
  unfold choose bestOf
  cases hscope : ranked.find? (·.scope = scope) with
  | some best => exact fill_one ranked best.name
  | none =>
    cases ranked with
    | nil => rfl
    | cons c cs =>
      change fill (c :: cs) [] = _
      rw [fill, if_neg (by decide), if_neg (by simp), List.nil_append, fill_one]
      change _ = c.name :: (((c :: cs).find? (·.name ≠ c.name)).map Candidate.name).toList
      rw [List.find?_cons_of_neg (by simp)]

theorem bestOf_eq_none (h : bestOf ranked scope = none) : ranked = [] := by
  unfold bestOf at h
  exact List.head?_eq_none_iff.mp (Option.or_eq_none_iff.mp h).2

/-- The first other candidate is admitted exactly if none but the best is ahead of the admitted. -/
theorem first_other_iff {admitted : List String} {name : String} (hbest : name ∉ admitted)
    (h : ∃ c ∈ ranked, c.name ∈ admitted) :
    (∃ c ∈ ranked.find? (·.name ≠ name), c.name ∈ admitted) ↔
      ∀ c ∈ ranked.takeWhile (fun c => c.name ∉ admitted), c.name = name := by
  induction ranked with
  | nil =>
    obtain ⟨c, hc, -⟩ := h
    cases hc
  | cons c cs ih =>
    by_cases hc : c.name = name
    · -- the best itself is blocked, so what decides comes after it
      have hblocked : c.name ∉ admitted := by rwa [hc]
      have hrest : ∃ d ∈ cs, d.name ∈ admitted := by
        obtain ⟨d, hd, hin⟩ := h
        rcases List.mem_cons.mp hd with rfl | hd
        · exact absurd hin hblocked
        · exact ⟨d, hd, hin⟩
      rw [List.find?_cons_of_neg (by simp [hc]), ih hrest,
        List.takeWhile_cons_of_pos (by simpa using hblocked), List.forall_mem_cons]
      exact (and_iff_right hc).symm
    · rw [List.find?_cons_of_pos (by simp [hc])]
      by_cases hin : c.name ∈ admitted
      · rw [List.takeWhile_cons_of_neg (by simpa using hin)]
        exact iff_of_true ⟨c, rfl, hin⟩ nofun
      · rw [List.takeWhile_cons_of_pos (by simpa using hin)]
        refine iff_of_false ?_ (fun hall => hc (hall c List.mem_cons_self))
        rintro ⟨d, hd, hin'⟩
        exact hin (Option.some.inj hd ▸ hin')

/-- Some chosen name is admitted exactly if the best is, or the first other one. -/
theorem chosen_iff {admitted : List String} (h : ∃ c ∈ ranked, c.name ∈ admitted) :
    (∃ name ∈ choose ranked scope, name ∈ admitted) ↔
      ∀ best ∈ bestOf ranked scope, best.name ∈ admitted ∨
        ∀ c ∈ ranked.takeWhile (fun c => c.name ∉ admitted), c.name = best.name := by
  rw [choose_eq]
  cases hbest : bestOf ranked scope with
  | none =>
    rw [bestOf_eq_none hbest] at h
    obtain ⟨c, hc, -⟩ := h
    cases hc
  | some best =>
    have hchosen : (∃ name ∈ best.name ::
        ((ranked.find? (·.name ≠ best.name)).map Candidate.name).toList, name ∈ admitted) ↔
        best.name ∈ admitted ∨ ∃ c ∈ ranked.find? (·.name ≠ best.name), c.name ∈ admitted := by
      simp
    dsimp only
    rw [hchosen]
    constructor
    · rintro (hin | hother) b hb
      · exact .inl (Option.some.inj hb ▸ hin)
      · rw [← Option.some.inj hb]
        by_cases hin : best.name ∈ admitted
        · exact .inl hin
        · exact .inr ((first_other_iff hin h).mp hother)
    · intro hreach
      by_cases hin : best.name ∈ admitted
      · exact .inl hin
      · exact .inr ((first_other_iff hin h).mpr ((hreach best rfl).resolve_left hin))

end Choice

theorem release_reaches_iff (x : Shigoto) (cfg : LeafConfig) (p : LeafPermit) (g : Gate)
    (now : Nat) (hpark : p.wake.park = true) :
    NoLostWake x cfg p g now ↔ BestReaches x cfg p g now := by
  have hnames : (p.drop x g now).1 =
      choose (order (asleep (g.queue.retain now)) p.wake.priority) p.wake.scope := by
    unfold LeafPermit.drop WakeOnRelease.drop
    rw [if_pos hpark]
  unfold NoLostWake BestReaches
  rw [hnames]
  refine forall_congr' (fun hawaited => chosen_iff ?_)
  obtain ⟨c, hc, hin⟩ := hawaited
  exact ⟨c, (order_perm _ _).mem_iff.mpr hc, hin⟩

def onePerCredential : LeafConfig := ⟨1, 500, false, true, .on⟩

/-- A pool of three is full: one leaf holds the credential, two fill the scope that is released.
`u` and `v` wait for the credential, `w` for the pool only. -/
def credentialHeld : List GateEvent :=
  [.enter ⟨⟨"h", "a", some "g", .change, 0, 0⟩, none, 0, fun _ => []⟩,
    .enter ⟨⟨"p", "s", none, .change, 0, 0⟩, none, 0, fun _ => []⟩,
    .enter ⟨⟨"q", "s", none, .change, 0, 0⟩, none, 0, fun _ => []⟩,
    .enter ⟨⟨"u", "s", some "g", .change, 0, 0⟩, none, 0, fun _ => []⟩,
    .enter ⟨⟨"v", "a", some "g", .change, 0, 0⟩, none, 0, fun _ => []⟩,
    .enter ⟨⟨"w", "b", none, .change, 0, 0⟩, none, 0, fun _ => []⟩]

def heldGate : Gate := (run (GateRun.step unrankedShigoto onePerCredential)
  (GateRun.new ⟨2, 3⟩ 0) credentialHeld).gate

def heldPermit (scope : String) (credential : Option BudgetPermit) : LeafPermit :=
  ⟨false, ⟨scope⟩, credential, none, ⟨scope, .on, true⟩⟩

/-- The leaf that holds the credential is done instead. -/
theorem credential_release_reaches_iff :
    NoLostWake unrankedShigoto onePerCredential (heldPermit "a" (some ⟨"g"⟩)) heldGate 0 ↔
      BestReaches unrankedShigoto onePerCredential (heldPermit "a" (some ⟨"g"⟩)) heldGate 0 :=
  release_reaches_iff unrankedShigoto onePerCredential (heldPermit "a" (some ⟨"g"⟩)) heldGate 0 rfl

/-- `p` is done: `u` and `v` are woken and stay blocked, `w` could run and is not woken. -/
theorem blocked_waiters_take_the_wakes : ¬ ∀ (x : Shigoto), x.Exact → ∀ (cfg : LeafConfig)
    (p : LeafPermit) (g : Gate) (now : Nat), p.wake.park = true → NoLostWake x cfg p g now := by
  intro h
  have hreach := h unrankedShigoto CapRun.unrankedShigoto_exact onePerCredential
    (heldPermit "s" none) heldGate 0 rfl
  have hawaited : Awaited unrankedShigoto onePerCredential (heldPermit "s" none) heldGate 0 := by
    unfold Awaited
    decide +kernel
  have hwoken := hreach hawaited
  revert hwoken
  decide +kernel

end PangeaOperator.LeafGate

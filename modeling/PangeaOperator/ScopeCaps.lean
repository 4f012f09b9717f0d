import Mathlib
import PangeaOperator.ReconcileQueue

/-!
# Caps declared call by call

`FairBudget` of `scheduling.rs` where each call may bring a cap of its own for its scope. The
tree keeps the last cap declared for a scope, and a call without one finds it there.
-/

namespace PangeaOperator

theorem inScopeOf_le_length (live : List BudgetPermit) (scope : String) :
    inScopeOf live scope ≤ live.length := List.countP_le_length

/-- The tree of shigoto: an allocation succeeds where both registered caps have room, and a release
undoes one. -/
structure Shigoto.Exact (x : Shigoto) : Prop where
  succeeds : ∀ t scope, (x.tryAllocate t scope).isSome ↔
    (∀ c, t.global = some c → t.runningGlobal < c) ∧
    ∀ c, t.byScope scope = some c → t.runningScope scope < c
  allocated : ∀ t t' scope, x.tryAllocate t scope = some t' →
    t' = { t with runningGlobal := t.runningGlobal + 1,
                  runningScope := bump t.runningScope scope (t.runningScope scope + 1) }
  released : ∀ t scope, 0 < t.runningGlobal → 0 < t.runningScope scope → x.release t scope =
    { t with runningGlobal := t.runningGlobal - 1,
             runningScope := bump t.runningScope scope (t.runningScope scope - 1) }

namespace FairBudget

/-- The tree counts the live permits, never more than the pool holds. -/
structure Tracks (b : FairBudget) (live : List BudgetPermit) : Prop where
  global : b.tree.global = some (cap b.cfg.global)
  runningGlobal : b.tree.runningGlobal = live.length
  runningScope : ∀ scope, b.tree.runningScope scope = inScopeOf live scope
  pool : live.length ≤ cap b.cfg.global

/-- The cap that a call finds in force for its scope. -/
def inForce (b : FairBudget) (scope : String) : Option Nat → Nat
  | some n => cap n
  | none => (b.tree.byScope scope).getD (cap b.cfg.perScope)

/-- Both caps have room for a call. -/
def Room (b : FairBudget) (live : List BudgetPermit) (scope : String) (scopeCap : Option Nat) :
    Prop := live.length < cap b.cfg.global ∧ inScopeOf live scope < b.inForce scope scopeCap

theorem tracks_new (cfg : BudgetConfig) : (FairBudget.new cfg).Tracks [] :=
  ⟨rfl, rfl, fun _ => rfl, Nat.zero_le _⟩

theorem declareScope_eq (b : FairBudget) (scope : String) (scopeCap : Option Nat) :
    b.declareScope scope scopeCap = { b.tree with
      byScope := fun s => if s = scope then some (b.inForce scope scopeCap)
        else b.tree.byScope s } := by
  cases scopeCap <;> rfl

section Call

variable {x : Shigoto} {b : FairBudget} {live : List BudgetPermit}

theorem room_iff (hx : x.Exact) (h : b.Tracks live) (scope : String) (scopeCap : Option Nat) :
    (x.tryAllocate (b.declareScope scope scopeCap) scope).isSome ↔ b.Room live scope scopeCap := by
  rw [hx.succeeds, declareScope_eq]
  simp only [h.global, Option.some.injEq, forall_eq', if_true, h.runningGlobal, h.runningScope]
  rfl

/-- A call hands out a permit of its scope exactly where both caps have room. -/
theorem granted_iff (hx : x.Exact) (h : b.Tracks live) (scope : String) (scopeCap : Option Nat) :
    (b.tryAcquireCapped x scope scopeCap).1.isSome ↔ b.Room live scope scopeCap := by
  rw [← room_iff hx h]
  unfold tryAcquireCapped
  dsimp only
  cases x.tryAllocate (b.declareScope scope scopeCap) scope <;> simp

theorem permit_scope {p : BudgetPermit} {scope : String} {scopeCap : Option Nat}
    (h : (b.tryAcquireCapped x scope scopeCap).1 = some p) : p = ⟨scope⟩ := by
  unfold tryAcquireCapped at h
  dsimp only at h
  split at h
  · exact (Option.some.inj h).symm
  · cases h

theorem cfg_call (x : Shigoto) (b : FairBudget) (scope : String) (scopeCap : Option Nat) :
    (b.tryAcquireCapped x scope scopeCap).2.cfg = b.cfg := by
  unfold tryAcquireCapped
  dsimp only
  split <;> rfl

/-- A call leaves the cap it found in force behind. -/
theorem byScope_call (hx : x.Exact) (b : FairBudget) (scope : String) (scopeCap : Option Nat)
    (s : String) : (b.tryAcquireCapped x scope scopeCap).2.tree.byScope s =
      if s = scope then some (b.inForce scope scopeCap) else b.tree.byScope s := by
  unfold tryAcquireCapped
  dsimp only
  split
  · next t' ht =>
    rw [hx.allocated _ _ _ ht, declareScope_eq]
  · rw [declareScope_eq]

/-- The counts after a call are those before it, with the permit it handed out. -/
theorem tracks_call (hx : x.Exact) (h : b.Tracks live) (scope : String) (scopeCap : Option Nat) :
    (b.tryAcquireCapped x scope scopeCap).2.Tracks
      ((b.tryAcquireCapped x scope scopeCap).1.toList ++ live) := by
  have hroom := granted_iff hx h scope scopeCap
  unfold tryAcquireCapped at hroom ⊢
  dsimp only at hroom ⊢
  cases ht : x.tryAllocate (b.declareScope scope scopeCap) scope with
  | none =>
    rw [declareScope_eq]
    exact ⟨h.global, h.runningGlobal, h.runningScope, h.pool⟩
  | some t' =>
    rw [ht] at hroom
    rw [hx.allocated _ _ _ ht, declareScope_eq]
    exact ⟨h.global, congrArg (· + 1) h.runningGlobal, bump_add_one h.runningScope scope,
      (hroom.mp rfl).1⟩

theorem tracks_release (hx : x.Exact) (h : b.Tracks live) {p : BudgetPermit} (hp : p ∈ live) :
    (b.release x p.scope).Tracks (live.erase p) := by
  have hperm := List.perm_cons_erase hp
  have hlength : live.length = (live.erase p).length + 1 := hperm.length_eq
  have hrelease := hx.released b.tree p.scope (by rw [h.runningGlobal]; omega)
    (count_pos_of_perm h.runningScope hperm)
  have hpool := h.pool
  unfold release
  rw [hrelease]
  refine ⟨h.global, ?_, bump_sub_one h.runningScope hperm, ?_⟩
  · dsimp only
    rw [h.runningGlobal]
    omega
  · dsimp only
    omega

theorem byScope_release (hx : x.Exact) (h : b.Tracks live) {p : BudgetPermit} (hp : p ∈ live) :
    (b.release x p.scope).tree.byScope = b.tree.byScope := by
  have hperm := List.perm_cons_erase hp
  have hlength : live.length = (live.erase p).length + 1 := hperm.length_eq
  rw [release, hx.released b.tree p.scope (by rw [h.runningGlobal]; omega)
    (count_pos_of_perm h.runningScope hperm)]

end Call

end FairBudget

/-- One budget with its live permits, and the last cap that was declared for each scope. -/
structure CapRun where
  budget : FairBudget
  live : List BudgetPermit
  latest : String → Option Nat

inductive CapEvent where
  | acquire (scope : String) (scopeCap : Option Nat)
  | drop (permit : BudgetPermit)
  deriving DecidableEq, Repr

namespace CapRun

def new (cfg : BudgetConfig) : CapRun := ⟨.new cfg, [], fun _ => none⟩

def declare (latest : String → Option Nat) (scope : String) (scopeCap : Option Nat) (s : String) :
    Option Nat := if s = scope then scopeCap.or (latest s) else latest s

def step (x : Shigoto) (r : CapRun) : CapEvent → CapRun
  | .acquire scope scopeCap =>
    let out := r.budget.tryAcquireCapped x scope scopeCap
    ⟨out.2, out.1.toList ++ r.live, declare r.latest scope scopeCap⟩
  | .drop permit =>
    if permit ∈ r.live then
      { r with budget := r.budget.release x permit.scope, live := r.live.erase permit }
    else r

/-- The counts are the numbers of live permits, and a call succeeds exactly where the pool is below
`global` and the scope below the cap the call declares, `per_scope` where it declares none. -/
def FollowsDeclared (x : Shigoto) (r : CapRun) (e : CapEvent) : Prop :=
  (r.budget.totalInFlight = r.live.length ∧
    ∀ scope, r.budget.inFlight scope = inScopeOf r.live scope) ∧
  match e with
  | .acquire scope scopeCap => (r.budget.tryAcquireCapped x scope scopeCap).1.isSome ↔
      r.live.length < r.budget.cfg.global ∧
        inScopeOf r.live scope < scopeCap.getD r.budget.cfg.perScope
  | .drop _ => True

def u32Max : Nat := 2 ^ 32 - 1

/-- A call without a cap of its own comes where the last cap declared for its scope decides as
`per_scope` would. With as many permits out as the tree can count, no call is owed one. -/
def LatestAgrees (r : CapRun) : CapEvent → Prop
  | .acquire scope scopeCap =>
    if r.live.length < u32Max then
      scopeCap = none → r.live.length < r.budget.cfg.global →
        (inScopeOf r.live scope < (r.latest scope).getD r.budget.cfg.perScope ↔
          inScopeOf r.live scope < r.budget.cfg.perScope)
    else r.budget.cfg.global ≤ u32Max ∨
      scopeCap.getD r.budget.cfg.perScope ≤ inScopeOf r.live scope
  | .drop _ => True

section Run

variable {x : Shigoto} {r : CapRun}

/-- The tree's cap of a scope is the last one declared, else `per_scope` once it is seen. -/
structure Sound (r : CapRun) : Prop where
  tracks : r.budget.Tracks r.live
  latest : ∀ scope n, r.latest scope = some n → r.budget.tree.byScope scope = some (cap n)
  undeclared : ∀ scope c, r.latest scope = none → r.budget.tree.byScope scope = some c →
    c = cap r.budget.cfg.perScope

theorem sound_new (cfg : BudgetConfig) : Sound (new cfg) :=
  ⟨FairBudget.tracks_new cfg, nofun, nofun⟩

theorem Sound.inForce (h : Sound r) (scope : String) (scopeCap : Option Nat) :
    r.budget.inForce scope scopeCap =
      cap (scopeCap.getD ((r.latest scope).getD r.budget.cfg.perScope)) := by
  cases scopeCap with
  | some n => rfl
  | none =>
    unfold FairBudget.inForce
    rw [Option.getD_none]
    cases hl : r.latest scope with
    | some n => rw [h.latest scope n hl, Option.getD_some, Option.getD_some]
    | none =>
      rw [Option.getD_none]
      cases hc : r.budget.tree.byScope scope with
      | none => rfl
      | some c => exact h.undeclared scope c hl hc

theorem Sound.acquire (hx : x.Exact) (h : Sound r) (scope : String) (scopeCap : Option Nat) :
    Sound (r.step x (.acquire scope scopeCap)) := by
  have hby := FairBudget.byScope_call hx r.budget scope scopeCap
  have hcfg := FairBudget.cfg_call x r.budget scope scopeCap
  have hforce := h.inForce scope scopeCap
  refine ⟨FairBudget.tracks_call hx h.tracks scope scopeCap, fun s n hn => ?_,
    fun s c hn hc => ?_⟩
  · change declare r.latest scope scopeCap s = some n at hn
    change (r.budget.tryAcquireCapped x scope scopeCap).2.tree.byScope s = _
    rw [hby]
    by_cases hs : s = scope
    · subst hs
      rw [declare, if_pos rfl] at hn
      rw [if_pos rfl, hforce, ← Option.getD_or, hn, Option.getD_some]
    · rw [declare, if_neg hs] at hn
      rw [if_neg hs]
      exact h.latest s n hn
  · change declare r.latest scope scopeCap s = none at hn
    change (r.budget.tryAcquireCapped x scope scopeCap).2.tree.byScope s = some c at hc
    change c = cap (r.budget.tryAcquireCapped x scope scopeCap).2.cfg.perScope
    rw [hby] at hc
    rw [hcfg]
    by_cases hs : s = scope
    · subst hs
      rw [declare, if_pos rfl] at hn
      rw [if_pos rfl, Option.some.injEq] at hc
      rw [← hc, hforce, ← Option.getD_or, hn, Option.getD_none]
    · rw [declare, if_neg hs] at hn
      rw [if_neg hs] at hc
      exact h.undeclared s c hn hc

theorem Sound.drop (hx : x.Exact) (h : Sound r) (p : BudgetPermit) :
    Sound (r.step x (.drop p)) := by
  unfold step
  dsimp only
  split
  · next hp =>
    have hby := FairBudget.byScope_release hx h.tracks hp
    refine ⟨FairBudget.tracks_release hx h.tracks hp, ?_, ?_⟩
    · rw [hby]
      exact h.latest
    · rw [hby]
      exact h.undeclared
  · exact h

theorem Sound.step (hx : x.Exact) (r : CapRun) (e : CapEvent) (h : Sound r) :
    Sound (r.step x e) := by
  cases e with
  | acquire scope scopeCap => exact h.acquire hx scope scopeCap
  | drop p => exact h.drop hx p

/-- One call: what decides it is the cap in force, what should decide it the declared one. -/
theorem Sound.follows_iff (hx : x.Exact) (r : CapRun) (e : CapEvent) (h : Sound r) :
    FollowsDeclared x r e ↔ LatestAgrees r e := by
  have hcounts : r.budget.totalInFlight = r.live.length ∧
      ∀ scope, r.budget.inFlight scope = inScopeOf r.live scope :=
    ⟨h.tracks.runningGlobal, h.tracks.runningScope⟩
  unfold FollowsDeclared LatestAgrees
  rw [and_iff_right hcounts]
  cases e with
  | drop p => exact Iff.rfl
  | acquire scope scopeCap =>
    have hle := inScopeOf_le_length r.live scope
    have hpool := h.tracks.pool
    dsimp only
    rw [FairBudget.granted_iff hx h.tracks, FairBudget.Room, h.inForce]
    unfold cap at hpool ⊢
    unfold u32Max
    split
    · next hfew =>
      -- below the limit of the counter the 32 bits do not matter
      have hglobal : r.live.length < min r.budget.cfg.global (2 ^ 32 - 1) ↔
          r.live.length < r.budget.cfg.global := by omega
      have hscope (n : Nat) : inScopeOf r.live scope < min n (2 ^ 32 - 1) ↔
          inScopeOf r.live scope < n := by omega
      rw [hglobal, hscope]
      cases scopeCap with
      | some n => simp
      | none => simp [and_congr_right_iff]
    · next hmany =>
      -- at the limit every call is refused
      have hfull : ¬ r.live.length < min r.budget.cfg.global (2 ^ 32 - 1) := by omega
      constructor
      · intro hiff
        by_contra hno
        rw [not_or, not_le, not_le] at hno
        exact hfull (hiff.mpr ⟨by omega, hno.2⟩).1
      · intro hor
        refine iff_of_false (fun hroom => hfull hroom.1) (fun howed => ?_)
        omega

end Run

theorem caps_follow_declared_iff {x : Shigoto} (hx : x.Exact) (cfg : BudgetConfig)
    (es : List CapEvent) :
    Along (step x) (new cfg) es (FollowsDeclared x) ↔ Along (step x) (new cfg) es LatestAgrees :=
  along_congr (Sound.step hx) (Sound.follows_iff hx) (sound_new cfg) es

theorem unrankedShigoto_exact : unrankedShigoto.Exact where
  succeeds t scope := by
    simp only [unrankedShigoto]
    split
    · next h => exact iff_of_true rfl h
    · next h => exact iff_of_false (by simp) h
  allocated := unrankedShigoto_lawful.allocated
  released := unrankedShigoto_lawful.released

/-- One scope with a cap of its own beside one under the uniform cap. -/
def ownAndUniform : List CapEvent :=
  [.acquire "big" (some 4), .acquire "small" none, .acquire "big" (some 4), .drop ⟨"small"⟩]

theorem own_and_uniform_follow :
    Along (step unrankedShigoto) (new .default) ownAndUniform
      (FollowsDeclared unrankedShigoto) := by
  refine (caps_follow_declared_iff unrankedShigoto_exact .default ownAndUniform).mpr ?_
  unfold ownAndUniform
  rw [along_cons_iff, along_cons_iff, along_cons_iff, along_cons_iff]
  refine ⟨?_, ?_, ?_, trivial, along_nil _ _ _⟩ <;> unfold LatestAgrees <;> decide +kernel

/-- A catalog's cap of four is in force after the catalog has stopped declaring it: the third call,
with none, is let in where `per_scope` is two. -/
theorem dropped_cap_stays_in_force : ¬ ∀ (x : Shigoto), x.Exact → ∀ (cfg : BudgetConfig)
    (es : List CapEvent), Along (step x) (new cfg) es (FollowsDeclared x) := by
  intro h
  have hcall := (h unrankedShigoto unrankedShigoto_exact .default
    [.acquire "big" (some 4), .acquire "big" (some 4), .acquire "big" none]
    [.acquire "big" (some 4), .acquire "big" (some 4)] (.acquire "big" none) [] rfl).2
  revert hcall
  decide +kernel

end CapRun

end PangeaOperator

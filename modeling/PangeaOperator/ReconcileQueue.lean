import Mathlib.Data.UInt
import Mathlib.Data.List.Perm.Basic
import Mathlib.Data.List.Nodup
import PangeaOperator.Lib.Run

/-!
# The reconcile queue

`reconcile_scheduler.rs` over `scheduling.rs`. Ranking and the concurrency counters belong
to the shigoto crates and are parameters here; the queue keeps the demands, hands out permits
and raises the deficit of the demands it passes over.
-/

namespace PangeaOperator

/-- Discriminants of `shigoto_rank::PriorityClass`, from `Critical = 0` to `Low = 3`. -/
abbrev PriorityClass := Fin 4

structure UrgencyWeights where
  perStaleSec : UInt64
  behindTarget : UInt64
  perDrift : UInt64
  perDeficit : UInt64
  deriving DecidableEq, Repr

def UrgencyWeights.default : UrgencyWeights := ⟨1, 3600, 120, 600⟩

/-- The contract of a unit; all but the scope is what the ranking reads. -/
class Schedulable (α : Type) where
  schedId : α → String
  schedScope : α → String
  priorityClass : α → PriorityClass
  stalenessSecs : α → UInt64
  behindTarget : α → Bool
  driftMagnitude : α → UInt32
  fairnessDeficit : α → UInt64
  eligible : α → UInt64 → Bool

structure ReconcileDemand where
  unit : String
  workspace : String
  priority : PriorityClass
  stalenessSecs : UInt64
  behindHead : Bool
  driftMagnitude : UInt32
  fairnessDeficit : UInt64
  backoffUntilSecs : UInt64
  depsReady : Bool
  deriving DecidableEq, Repr

namespace ReconcileDemand

def eligible (d : ReconcileDemand) (nowSecs : UInt64) : Bool :=
  d.depsReady && d.backoffUntilSecs ≤ nowSecs

instance : Schedulable ReconcileDemand where
  schedId := unit
  schedScope := workspace
  priorityClass := priority
  stalenessSecs := stalenessSecs
  behindTarget := behindHead
  driftMagnitude := driftMagnitude
  fairnessDeficit := fairnessDeficit
  eligible := eligible

end ReconcileDemand

/-- `BudgetTree` of shigoto, without the dimension the operator never fills: the caps the operator
sets and the counters it reads. -/
structure BudgetTree where
  global : Option Nat
  byScope : String → Option Nat
  runningGlobal : Nat
  runningScope : String → Nat

def BudgetTree.new : BudgetTree := ⟨none, fun _ => none, 0, fun _ => 0⟩

/-- What the operator calls in the shigoto crates. -/
structure Shigoto where
  pick : {α : Type} → [Schedulable α] → List α → UInt64 → UrgencyWeights → Nat → List α
  tryAllocate : BudgetTree → String → Option BudgetTree
  release : BudgetTree → String → BudgetTree

def bump (f : String → Nat) (scope : String) (n : Nat) : String → Nat :=
  fun s => if s = scope then n else f s

/-- The documented behaviour of the crates: `pick` ranks the eligible units once each, and the
tree counts allocations against its caps. -/
structure Shigoto.Lawful (x : Shigoto) : Prop where
  pick_perm : ∀ {α : Type} [Schedulable α] (pending : List α) (now : UInt64) (w : UrgencyWeights),
    (x.pick pending now w pending.length).Perm (pending.filter (Schedulable.eligible · now))
  allocated : ∀ t t' scope, x.tryAllocate t scope = some t' →
    t' = { t with runningGlobal := t.runningGlobal + 1,
                  runningScope := bump t.runningScope scope (t.runningScope scope + 1) }
  enforced : ∀ t t' scope, x.tryAllocate t scope = some t' →
    (∀ c, t.global = some c → t.runningGlobal < c) ∧
    ∀ c, t.byScope scope = some c → t.runningScope scope < c
  released : ∀ t scope, 0 < t.runningGlobal → 0 < t.runningScope scope → x.release t scope =
    { t with runningGlobal := t.runningGlobal - 1,
             runningScope := bump t.runningScope scope (t.runningScope scope - 1) }

structure BudgetConfig where
  perScope : Nat
  global : Nat
  deriving DecidableEq, Repr

def BudgetConfig.default : BudgetConfig := ⟨2, 8⟩

/-- A cap in the tree's 32 bits. -/
def cap (n : Nat) : Nat := min n (2 ^ 32 - 1)

structure FairBudget where
  cfg : BudgetConfig
  tree : BudgetTree

structure BudgetPermit where
  scope : String
  deriving DecidableEq, Repr

namespace FairBudget

def new (cfg : BudgetConfig) : FairBudget :=
  ⟨cfg, { BudgetTree.new with global := some (cap cfg.global) }⟩

/-- The cap of a scope: replaced by the caller's, else registered the first time it is seen. -/
def declareScope (b : FairBudget) (scope : String) (scopeCap : Option Nat) : BudgetTree :=
  let declared := match scopeCap with
    | some n => cap n
    | none => (b.tree.byScope scope).getD (cap b.cfg.perScope)
  { b.tree with byScope := fun s => if s = scope then some declared else b.tree.byScope s }

def tryAcquireCapped (x : Shigoto) (b : FairBudget) (scope : String) (scopeCap : Option Nat) :
    Option BudgetPermit × FairBudget :=
  let t := b.declareScope scope scopeCap
  match x.tryAllocate t scope with
  | some t' => (some ⟨scope⟩, { b with tree := t' })
  | none => (none, { b with tree := t })

def tryAcquire (x : Shigoto) (b : FairBudget) (scope : String) : Option BudgetPermit × FairBudget :=
  b.tryAcquireCapped x scope none

def inFlight (b : FairBudget) (scope : String) : Nat := b.tree.runningScope scope

def totalInFlight (b : FairBudget) : Nat := b.tree.runningGlobal

/-- The drop of a permit. -/
def release (x : Shigoto) (b : FairBudget) (scope : String) : FairBudget :=
  { b with tree := x.release b.tree scope }

end FairBudget

section Admission

variable {α : Type} [Schedulable α]

def schedule (x : Shigoto) (pending : List α) (nowSecs : UInt64) (weights : UrgencyWeights)
    (slots : Nat) : List α := x.pick pending nowSecs weights slots

/-- The loop of `pick_admitted`: in rank order, a unit whose scope or pool is full is skipped. -/
def acquireInOrder (x : Shigoto) : List α → FairBudget → List (α × BudgetPermit) × FairBudget
  | [], b => ([], b)
  | u :: us, b =>
    match b.tryAcquire x (Schedulable.schedScope u) with
    | (some permit, b') => ((u, permit) :: (acquireInOrder x us b').1, (acquireInOrder x us b').2)
    | (none, b') => acquireInOrder x us b'

def pickAdmitted (x : Shigoto) (pending : List α) (nowSecs : UInt64) (weights : UrgencyWeights)
    (budget : FairBudget) : List (α × BudgetPermit) × FairBudget :=
  acquireInOrder x (schedule x pending nowSecs weights pending.length) budget

end Admission

/-- The `HashMap` of demands, one for each unit. -/
structure DemandMap where
  values : List ReconcileDemand
  nodup : (values.map ReconcileDemand.unit).Nodup

namespace DemandMap

def empty : DemandMap := ⟨[], List.nodup_nil⟩

def get (m : DemandMap) (unit : String) : Option ReconcileDemand :=
  m.values.find? (·.unit = unit)

def remove (m : DemandMap) (unit : String) : DemandMap :=
  ⟨m.values.filter (·.unit ≠ unit), m.nodup.sublist (List.filter_sublist.map _)⟩

theorem not_mem_remove (m : DemandMap) (unit : String) :
    unit ∉ (m.remove unit).values.map ReconcileDemand.unit := by
  intro h
  obtain ⟨d, hd, hunit⟩ := List.mem_map.mp h
  exact (of_decide_eq_true (List.mem_filter.mp hd).2) hunit

def insert (m : DemandMap) (d : ReconcileDemand) : DemandMap :=
  ⟨d :: (m.remove d.unit).values,
    List.nodup_cons.mpr ⟨m.not_mem_remove d.unit, (m.remove d.unit).nodup⟩⟩

/-- `values_mut`, with a change that leaves the deficit's owner alone. -/
def raise (m : DemandMap) (f : ReconcileDemand → UInt64) : DemandMap :=
  ⟨m.values.map (fun d => { d with fairnessDeficit := f d }), by
    rw [List.map_map]
    exact m.nodup⟩

end DemandMap

/-- The queue with its budget, and the permits of its ticks that have not been dropped, each with
the unit it was handed out for. -/
structure ReconcileQueue where
  demands : DemandMap
  budget : FairBudget
  weights : UrgencyWeights
  permits : List (String × BudgetPermit)

inductive QueueEvent where
  | register (demand : ReconcileDemand)
  | complete (unit : String)
  | tick (nowSecs : UInt64)
  | dropPermit (unit : String) (permit : BudgetPermit)
  deriving DecidableEq, Repr

def saturatingSucc64 (n : UInt64) : UInt64 := if n.toNat + 1 < 2 ^ 64 then n + 1 else n

namespace ReconcileQueue

def new (cfg : BudgetConfig) (weights : UrgencyWeights) : ReconcileQueue :=
  ⟨.empty, .new cfg, weights, []⟩

def register (q : ReconcileQueue) (demand : ReconcileDemand) : ReconcileQueue :=
  let kept := match q.demands.get demand.unit with
    | some prev =>
      { demand with fairnessDeficit := max demand.fairnessDeficit prev.fairnessDeficit }
    | none => demand
  { q with demands := q.demands.insert kept }

def complete (q : ReconcileQueue) (unit : String) : ReconcileQueue :=
  { q with demands := q.demands.remove unit }

/-- What a tick hands out. -/
def admitted (x : Shigoto) (q : ReconcileQueue) (nowSecs : UInt64) : List (String × BudgetPermit) :=
  (pickAdmitted x q.demands.values nowSecs q.weights q.budget).1.map (fun a => (a.1.unit, a.2))

def tick (x : Shigoto) (q : ReconcileQueue) (nowSecs : UInt64) : ReconcileQueue :=
  let won := (q.admitted x nowSecs).map Prod.fst
  { q with
    demands := q.demands.raise (fun d =>
      if d.eligible nowSecs && !won.contains d.unit then saturatingSucc64 d.fairnessDeficit
      else d.fairnessDeficit)
    budget := (pickAdmitted x q.demands.values nowSecs q.weights q.budget).2
    permits := q.admitted x nowSecs ++ q.permits }

def dropPermit (x : Shigoto) (q : ReconcileQueue) (unit : String) (permit : BudgetPermit) :
    ReconcileQueue :=
  if (unit, permit) ∈ q.permits then
    { q with budget := q.budget.release x permit.scope, permits := q.permits.erase (unit, permit) }
  else q

def step (x : Shigoto) (q : ReconcileQueue) : QueueEvent → ReconcileQueue
  | .register demand => q.register demand
  | .complete unit => q.complete unit
  | .tick nowSecs => q.tick x nowSecs
  | .dropPermit unit permit => q.dropPermit x unit permit

def running (q : ReconcileQueue) (unit : String) : Nat := q.permits.countP (·.1 = unit)

def inScope (q : ReconcileQueue) (scope : String) : Nat := q.permits.countP (·.2.scope = scope)

end ReconcileQueue

section Budget

variable {x : Shigoto} {b : FairBudget} {live : List BudgetPermit}

def inScopeOf (live : List BudgetPermit) (scope : String) : Nat := live.countP (·.scope = scope)

/-- The tree counts the live permits, under the caps of the configuration. -/
structure FairBudget.Sound (b : FairBudget) (live : List BudgetPermit) : Prop where
  global : b.tree.global = some (cap b.cfg.global)
  byScope : ∀ scope c, b.tree.byScope scope = some c → c = cap b.cfg.perScope
  runningGlobal : b.tree.runningGlobal = live.length
  runningScope : ∀ scope, b.tree.runningScope scope = inScopeOf live scope
  pool : live.length ≤ cap b.cfg.global
  slice : ∀ scope, inScopeOf live scope ≤ cap b.cfg.perScope

theorem sound_new (cfg : BudgetConfig) : (FairBudget.new cfg).Sound [] where
  global := rfl
  byScope := nofun
  runningGlobal := rfl
  runningScope _ := rfl
  pool := Nat.zero_le _
  slice _ := Nat.zero_le _

theorem inScopeOf_cons (p : BudgetPermit) (live : List BudgetPermit) (scope : String) :
    inScopeOf (p :: live) scope = inScopeOf live scope + if p.scope = scope then 1 else 0 := by
  simp [inScopeOf, List.countP_cons]

theorem inScopeOf_of_perm {p : BudgetPermit} {rest : List BudgetPermit}
    (hrest : live.Perm (p :: rest)) (scope : String) :
    inScopeOf live scope = inScopeOf rest scope + if p.scope = scope then 1 else 0 := by
  rw [← inScopeOf_cons]
  exact hrest.countP_eq _

section Counts

variable {count : String → Nat} (hcount : ∀ scope, count scope = inScopeOf live scope)
include hcount

/-- The counts with one permit more. -/
theorem bump_add_one (scope s : String) :
    bump count scope (count scope + 1) s = inScopeOf (⟨scope⟩ :: live) s := by
  rw [inScopeOf_cons, ← hcount]
  by_cases hs : s = scope
  · rw [bump, if_pos hs, hs, if_pos rfl]
  · rw [bump, if_neg hs, if_neg (Ne.symm hs), Nat.add_zero]

/-- The counts with one permit less. -/
theorem bump_sub_one {p : BudgetPermit} {rest : List BudgetPermit}
    (hrest : live.Perm (p :: rest)) (s : String) :
    bump count p.scope (count p.scope - 1) s = inScopeOf rest s := by
  have hs := inScopeOf_of_perm hrest s
  by_cases he : s = p.scope
  · rw [he, if_pos rfl] at hs
    rw [bump, if_pos he, hcount, he, hs, Nat.add_sub_cancel]
  · rw [if_neg (Ne.symm he)] at hs
    rw [bump, if_neg he, hcount, hs, Nat.add_zero]

theorem count_pos_of_perm {p : BudgetPermit} {rest : List BudgetPermit}
    (hrest : live.Perm (p :: rest)) : 0 < count p.scope := by
  rw [hcount, inScopeOf_of_perm hrest, if_pos rfl]
  exact Nat.succ_pos _

end Counts

theorem declareScope_none (h : b.Sound live) (scope s : String) :
    (b.declareScope scope none).byScope s =
      if s = scope then some (cap b.cfg.perScope) else b.tree.byScope s := by
  have hdeclared : (b.tree.byScope scope).getD (cap b.cfg.perScope) = cap b.cfg.perScope := by
    cases hc : b.tree.byScope scope with
    | none => rfl
    | some c => exact h.byScope scope c hc
  simp only [FairBudget.declareScope, hdeclared]

/-- A permit is handed out where neither the pool nor the slice of the scope was full. -/
theorem tryAcquire_some (hx : x.Lawful) (h : b.Sound live) {scope : String} {p : BudgetPermit}
    {b' : FairBudget} (ha : b.tryAcquire x scope = (some p, b')) :
    p = ⟨scope⟩ ∧ b'.cfg = b.cfg ∧ b'.Sound (p :: live) ∧
      live.length < cap b.cfg.global ∧ inScopeOf live scope < cap b.cfg.perScope := by
  unfold FairBudget.tryAcquire FairBudget.tryAcquireCapped at ha
  dsimp only at ha
  split at ha
  · next t' ht =>
    simp only [Prod.mk.injEq, Option.some.injEq] at ha
    obtain ⟨rfl, rfl⟩ := ha
    have hfree := hx.enforced _ _ _ ht
    have hpool : live.length < cap b.cfg.global := by
      rw [← h.runningGlobal]
      exact hfree.1 _ h.global
    have hslice : inScopeOf live scope < cap b.cfg.perScope := by
      rw [← h.runningScope]
      exact hfree.2 _ (by rw [declareScope_none h, if_pos rfl])
    rw [hx.allocated _ _ _ ht]
    refine ⟨rfl, rfl, ⟨h.global, fun s c hc => ?_, ?_, fun s => ?_, hpool, fun s => ?_⟩, hpool,
      hslice⟩
    · replace hc : (b.declareScope scope none).byScope s = some c := hc
      rw [declareScope_none h] at hc
      split at hc
      · exact (Option.some.inj hc).symm
      · exact h.byScope s c hc
    · rw [List.length_cons, ← h.runningGlobal]
      rfl
    · exact bump_add_one h.runningScope scope s
    · rw [inScopeOf_cons]
      by_cases hs : s = scope
      · rw [hs, if_pos rfl]
        exact hslice
      · rw [if_neg (Ne.symm hs)]
        exact h.slice s
  · cases ha

theorem tryAcquire_none (h : b.Sound live) {scope : String} {b' : FairBudget}
    (ha : b.tryAcquire x scope = (none, b')) : b'.cfg = b.cfg ∧ b'.Sound live := by
  unfold FairBudget.tryAcquire FairBudget.tryAcquireCapped at ha
  dsimp only at ha
  split at ha
  · cases ha
  · simp only [Prod.mk.injEq, true_and] at ha
    subst ha
    refine ⟨rfl, h.global, fun s c hc => ?_, h.runningGlobal, h.runningScope, h.pool, h.slice⟩
    replace hc : (b.declareScope scope none).byScope s = some c := hc
    rw [declareScope_none h] at hc
    split at hc
    · exact (Option.some.inj hc).symm
    · exact h.byScope s c hc

theorem sound_release (hx : x.Lawful) (h : b.Sound live) {p : BudgetPermit}
    {rest : List BudgetPermit} (hrest : live.Perm (p :: rest)) :
    (b.release x p.scope).Sound rest := by
  have hlength : live.length = rest.length + 1 := hrest.length_eq
  have hrelease := hx.released b.tree p.scope (by rw [h.runningGlobal]; omega)
    (count_pos_of_perm h.runningScope hrest)
  have hpool := h.pool
  refine ⟨?_, ?_, ?_, fun s => ?_, ?_, fun s => ?_⟩ <;>
    simp only [FairBudget.release, hrelease]
  · exact h.global
  · exact h.byScope
  · rw [h.runningGlobal]
    omega
  · exact bump_sub_one h.runningScope hrest s
  · omega
  · have hs := inScopeOf_of_perm hrest s
    have hslice := h.slice s
    omega

theorem sound_perm (h : b.Sound live) {live' : List BudgetPermit} (hperm : live.Perm live') :
    b.Sound live' := by
  have hscope : ∀ s, inScopeOf live' s = inScopeOf live s := fun s => (hperm.countP_eq _).symm
  refine ⟨h.global, h.byScope, ?_, fun s => ?_, ?_, fun s => ?_⟩
  · rw [h.runningGlobal, hperm.length_eq]
  · rw [h.runningScope, hscope]
  · rw [← hperm.length_eq]
    exact h.pool
  · rw [hscope]
    exact h.slice s

variable {α : Type} [Schedulable α]

theorem admit_sublist (us : List α) (b : FairBudget) :
    ((acquireInOrder x us b).1.map Prod.fst).Sublist us := by
  induction us generalizing b with
  | nil => exact List.Sublist.slnil
  | cons u us ih =>
    unfold acquireInOrder
    split
    · exact (ih _).cons_cons u
    · exact (ih _).cons u

theorem sound_admit (hx : x.Lawful) (us : List α) (h : b.Sound live) :
    (acquireInOrder x us b).2.cfg = b.cfg ∧
      (acquireInOrder x us b).2.Sound ((acquireInOrder x us b).1.map Prod.snd ++ live) := by
  induction us generalizing b live with
  | nil => exact ⟨rfl, h⟩
  | cons u us ih =>
    unfold acquireInOrder
    split
    · next p b' ha =>
      obtain ⟨-, hcfg, hsound, -, -⟩ := tryAcquire_some hx h ha
      obtain ⟨hcfg', hsound'⟩ := ih hsound
      refine ⟨hcfg'.trans hcfg, sound_perm hsound' ?_⟩
      exact List.perm_middle
    · next b' ha =>
      obtain ⟨hcfg, hsound⟩ := tryAcquire_none h ha
      obtain ⟨hcfg', hsound'⟩ := ih hsound
      exact ⟨hcfg'.trans hcfg, hsound'⟩

/-- What is admitted had room already when the tick began: slots are only taken meanwhile. -/
theorem room_of_admitted (hx : x.Lawful) (us : List α) (h : b.Sound live) {a : α × BudgetPermit}
    (ha : a ∈ (acquireInOrder x us b).1) : live.length < cap b.cfg.global ∧
      inScopeOf live (Schedulable.schedScope a.1) < cap b.cfg.perScope := by
  induction us generalizing b live with
  | nil => cases ha
  | cons u us ih =>
    unfold acquireInOrder at ha
    split at ha
    · next p b' hacq =>
      obtain ⟨-, hcfg, hsound, hpool, hslice⟩ := tryAcquire_some hx h hacq
      rcases List.mem_cons.mp ha with rfl | ha
      · exact ⟨hpool, hslice⟩
      · obtain ⟨hpool', hslice'⟩ := ih hsound ha
        rw [hcfg] at hslice'
        rw [inScopeOf_cons] at hslice'
        exact ⟨hpool, by omega⟩
    · next b' hacq =>
      obtain ⟨hcfg, hsound⟩ := tryAcquire_none h hacq
      rw [← hcfg]
      exact ih hsound ha

end Budget

namespace DemandMap

theorem unit_of_get {m : DemandMap} {unit : String} {d : ReconcileDemand}
    (h : m.get unit = some d) : d.unit = unit := by
  have hfound := List.find?_some h
  rwa [decide_eq_true_eq] at hfound

theorem get_insert_self (m : DemandMap) (d : ReconcileDemand) :
    (m.insert d).get d.unit = some d := by
  simp [insert, get]

theorem get_remove_other (m : DemandMap) {unit other : String} (h : other ≠ unit) :
    (m.remove unit).get other = m.get other := by
  simp only [remove, get, List.find?_filter]
  congr 1
  funext d
  by_cases hd : d.unit = other
  · simp [hd, h]
  · simp [hd]

theorem get_insert_other (m : DemandMap) {d : ReconcileDemand} {other : String}
    (h : other ≠ d.unit) : (m.insert d).get other = m.get other := by
  rw [← get_remove_other m h]
  simp [insert, get, Ne.symm h]

theorem get_raise (m : DemandMap) (f : ReconcileDemand → UInt64) (unit : String) :
    (m.raise f).get unit = (m.get unit).map (fun d => { d with fairnessDeficit := f d }) := by
  simp only [raise, get, List.find?_map]
  rfl

end DemandMap

namespace ReconcileQueue

variable {x : Shigoto} {q : ReconcileQueue}

theorem toNat_saturatingSucc64 (n : UInt64) :
    (saturatingSucc64 n).toNat = min (n.toNat + 1) (2 ^ 64 - 1) := by
  have hn := n.toNat_lt
  unfold saturatingSucc64
  split
  · rw [UInt64.toNat_add, UInt64.toNat_one]
    omega
  · omega

/-- Between the registration of a unit and its completion the deficit never falls, and a tick that
passes over an eligible unit that is not running raises it by one. -/
def KeepsDeficit (x : Shigoto) (q : ReconcileQueue) (e : QueueEvent) : Prop :=
  ∀ unit d, q.demands.get unit = some d → e ≠ .complete unit →
    ∃ d', (q.step x e).demands.get unit = some d' ∧ d.fairnessDeficit ≤ d'.fairnessDeficit ∧
      ∀ now, e = .tick now → d.eligible now = true → unit ∉ (q.admitted x now).map Prod.fst →
        q.running unit = 0 →
        d'.fairnessDeficit.toNat = min (d.fairnessDeficit.toNat + 1) (2 ^ 64 - 1)

theorem deficit_le_max (a b : UInt64) : b ≤ max a b := by
  have hmax : max a b = if a ≤ b then b else a := rfl
  rw [hmax]
  split
  · exact UInt64.le_refl _
  · next h => exact UInt64.le_of_lt (UInt64.not_le.mp h)

theorem register_keepsDeficit {demand d : ReconcileDemand} {unit : String}
    (hd : q.demands.get unit = some d) : ∃ d', (q.register demand).demands.get unit = some d' ∧
      d.fairnessDeficit ≤ d'.fairnessDeficit := by
  unfold register
  by_cases hu : unit = demand.unit
  · subst hu
    simp only [hd]
    refine ⟨_, DemandMap.get_insert_self _ _, ?_⟩
    exact deficit_le_max _ _
  · refine ⟨d, ?_, UInt64.le_refl _⟩
    rw [← hd]
    split
    · exact DemandMap.get_insert_other _ hu
    · exact DemandMap.get_insert_other _ hu

theorem le_saturatingSucc64 (n : UInt64) : n ≤ saturatingSucc64 n := by
  have hn := n.toNat_lt
  rw [UInt64.le_iff_toNat_le, toNat_saturatingSucc64]
  omega

theorem tick_keepsDeficit {d : ReconcileDemand} {unit : String} (now : UInt64)
    (hd : q.demands.get unit = some d) : ∃ d', (q.tick x now).demands.get unit = some d' ∧
      d.fairnessDeficit ≤ d'.fairnessDeficit ∧
      (d.eligible now = true → unit ∉ (q.admitted x now).map Prod.fst →
        d'.fairnessDeficit.toNat = min (d.fairnessDeficit.toNat + 1) (2 ^ 64 - 1)) := by
  have hunit := DemandMap.unit_of_get hd
  refine ⟨_, by rw [tick, DemandMap.get_raise, hd]; rfl, ?_, ?_⟩
  · dsimp only
    split
    · exact le_saturatingSucc64 _
    · exact UInt64.le_refl _
  · intro heligible hpassed
    rw [← toNat_saturatingSucc64]
    simp [heligible, hunit, hpassed]

theorem step_keepsDeficit (x : Shigoto) (q : ReconcileQueue) (e : QueueEvent) :
    KeepsDeficit x q e := by
  intro unit d hd hcomplete
  cases e with
  | register demand =>
    obtain ⟨d', hd', hle⟩ := @register_keepsDeficit q demand d unit hd
    exact ⟨d', hd', hle, nofun⟩
  | complete other =>
    have hne : unit ≠ other := fun he => hcomplete (he ▸ rfl)
    exact ⟨d, (DemandMap.get_remove_other _ hne).trans hd, UInt64.le_refl _, nofun⟩
  | tick now =>
    obtain ⟨d', hd', hle, hraised⟩ := @tick_keepsDeficit x q d unit now hd
    refine ⟨d', hd', hle, fun now' he heligible hpassed _ => ?_⟩
    cases he
    exact hraised heligible hpassed
  | dropPermit other permit =>
    refine ⟨d, ?_, UInt64.le_refl _, nofun⟩
    rw [← hd, step, dropPermit]
    split
    · rfl
    · rfl

/-- A tick finds each unit that still holds a permit gone from the queue, not eligible, or without
a free slot: the queue itself does not look at the permits that are out. -/
def RunningKeptOut (q : ReconcileQueue) : QueueEvent → Prop
  | .tick now => ∀ a ∈ q.permits, ∀ d ∈ q.demands.values, d.unit = a.1 → d.eligible now = true →
      cap q.budget.cfg.global ≤ q.budget.totalInFlight ∨
        cap q.budget.cfg.perScope ≤ q.budget.inFlight d.workspace
  | _ => True

/-- One live permit at most for each unit, within the caps. -/
structure DispatchesOnce (cfg : BudgetConfig) (q : ReconcileQueue) : Prop where
  single : ∀ unit, q.running unit ≤ 1
  pool : q.permits.length ≤ cfg.global
  slice : ∀ scope, q.inScope scope ≤ cfg.perScope

structure Inv (cfg : BudgetConfig) (q : ReconcileQueue) : Prop where
  cfg_eq : q.budget.cfg = cfg
  sound : q.budget.Sound (q.permits.map Prod.snd)
  single : ∀ unit, q.running unit ≤ 1

variable {cfg : BudgetConfig}

theorem inv_new (cfg : BudgetConfig) (weights : UrgencyWeights) : Inv cfg (new cfg weights) :=
  ⟨rfl, sound_new cfg, fun _ => Nat.zero_le 1⟩

theorem inScope_eq (q : ReconcileQueue) (scope : String) :
    q.inScope scope = inScopeOf (q.permits.map Prod.snd) scope := by
  rw [inScopeOf, List.countP_map]
  rfl

theorem dispatchesOnce_of_inv (h : Inv cfg q) : DispatchesOnce cfg q := by
  refine ⟨h.single, ?_, fun scope => ?_⟩
  · have hpool := h.sound.pool
    rw [List.length_map, h.cfg_eq] at hpool
    exact hpool.trans (Nat.min_le_left _ _)
  · have hslice := h.sound.slice scope
    rw [← inScope_eq, h.cfg_eq] at hslice
    exact hslice.trans (Nat.min_le_left _ _)

theorem admitted_fst (x : Shigoto) (q : ReconcileQueue) (now : UInt64) :
    (q.admitted x now).map Prod.fst =
      ((pickAdmitted x q.demands.values now q.weights q.budget).1.map Prod.fst).map
        ReconcileDemand.unit := by
  rw [admitted, List.map_map, List.map_map]
  rfl

/-- A tick admits a unit once: the ranking names each demand once. -/
theorem admitted_nodup (hx : x.Lawful) (q : ReconcileQueue) (now : UInt64) :
    ((q.admitted x now).map Prod.fst).Nodup := by
  have hranked : ((schedule x q.demands.values now q.weights q.demands.values.length).map
      ReconcileDemand.unit).Nodup := by
    have hperm := (hx.pick_perm q.demands.values now q.weights).map ReconcileDemand.unit
    exact hperm.nodup_iff.mpr (q.demands.nodup.sublist (List.filter_sublist.map _))
  rw [admitted_fst]
  exact hranked.sublist ((admit_sublist _ _).map _)

theorem demand_of_admitted (hx : x.Lawful) (h : q.budget.Sound (q.permits.map Prod.snd))
    {now : UInt64} {unit : String} (hu : unit ∈ (q.admitted x now).map Prod.fst) :
    ∃ d ∈ q.demands.values, d.unit = unit ∧ d.eligible now = true ∧
      q.budget.totalInFlight < cap q.budget.cfg.global ∧
      q.budget.inFlight d.workspace < cap q.budget.cfg.perScope := by
  rw [admitted_fst] at hu
  obtain ⟨d, hd, rfl⟩ := List.mem_map.mp hu
  have hranked := (admit_sublist _ _).subset hd
  have hmem := (hx.pick_perm q.demands.values now q.weights).mem_iff.mp hranked
  obtain ⟨a, ha, rfl⟩ := List.mem_map.mp hd
  obtain ⟨hpool, hslice⟩ := room_of_admitted hx _ h ha
  refine ⟨a.1, (List.mem_filter.mp hmem).1, rfl, (List.mem_filter.mp hmem).2, ?_, ?_⟩
  · rw [FairBudget.totalInFlight, h.runningGlobal]
    exact hpool
  · rw [FairBudget.inFlight, h.runningScope]
    exact hslice

theorem running_eq_count (permits : List (String × BudgetPermit)) (unit : String) :
    permits.countP (·.1 = unit) = (permits.map Prod.fst).count unit := by
  rw [List.count, List.countP_map]
  congr 1

theorem running_tick (hx : x.Lawful) (h : Inv cfg q) {now : UInt64}
    (hout : RunningKeptOut q (.tick now)) (unit : String) : (q.tick x now).running unit ≤ 1 := by
  have hsplit : (q.tick x now).running unit =
      ((q.admitted x now).map Prod.fst).count unit + q.running unit := by
    rw [running, tick, List.countP_append, running_eq_count (q.admitted x now)]
    rfl
  have hone : ((q.admitted x now).map Prod.fst).count unit ≤ 1 :=
    List.nodup_iff_count_le_one.mp (admitted_nodup hx q now) unit
  rw [hsplit]
  by_cases hrun : q.running unit = 0
  · omega
  · -- a unit that runs already is not admitted again
    obtain ⟨a, ha, hau⟩ := List.countP_pos_iff.mp (Nat.pos_of_ne_zero hrun)
    have hnot : unit ∉ (q.admitted x now).map Prod.fst := by
      intro hu
      obtain ⟨d, hd, hdu, heligible, hpool, hslice⟩ := demand_of_admitted hx h.sound hu
      have hsame : d.unit = a.1 := hdu.trans (of_decide_eq_true hau).symm
      rcases hout a ha d hd hsame heligible with hfull | hfull
      · omega
      · omega
    have hsingle := h.single unit
    rw [List.count_eq_zero.mpr hnot]
    omega

theorem inv_tick (hx : x.Lawful) (h : Inv cfg q) {now : UInt64}
    (hout : RunningKeptOut q (.tick now)) : Inv cfg (q.tick x now) := by
  obtain ⟨hcfg, hsound⟩ := sound_admit hx (schedule x q.demands.values now q.weights
    q.demands.values.length) h.sound
  refine ⟨hcfg.trans h.cfg_eq, ?_, running_tick hx h hout⟩
  have hpermits : (q.tick x now).permits.map Prod.snd =
      (pickAdmitted x q.demands.values now q.weights q.budget).1.map Prod.snd ++
        q.permits.map Prod.snd := by
    rw [tick, List.map_append, admitted, List.map_map]
    rfl
  rw [hpermits]
  exact hsound

theorem inv_dropPermit (hx : x.Lawful) (h : Inv cfg q) (unit : String) (permit : BudgetPermit) :
    Inv cfg (q.dropPermit x unit permit) := by
  unfold dropPermit
  split
  · next hmem =>
    refine ⟨h.cfg_eq, ?_, fun u => ?_⟩
    · exact sound_release hx h.sound ((List.perm_cons_erase hmem).map Prod.snd)
    · exact (List.erase_sublist.countP_le).trans (h.single u)
  · exact h

theorem inv_step (hx : x.Lawful) (q : ReconcileQueue) (e : QueueEvent) (hout : RunningKeptOut q e)
    (h : Inv cfg q) : Inv cfg (q.step x e) := by
  cases e with
  | register demand => exact ⟨h.cfg_eq, h.sound, h.single⟩
  | complete unit => exact ⟨h.cfg_eq, h.sound, h.single⟩
  | tick now => exact inv_tick hx h hout
  | dropPermit unit permit => exact inv_dropPermit hx h unit permit

/-- Where no tick finds a running unit still eligible with room, every unit is dispatched once. -/
theorem queue_dispatches_once (hx : x.Lawful) (cfg : BudgetConfig) (weights : UrgencyWeights)
    {es : List QueueEvent} (h : Along (step x) (new cfg weights) es RunningKeptOut) :
    (∀ pre post, es = pre ++ post → DispatchesOnce cfg (run (step x) (new cfg weights) pre)) ∧
    Along (step x) (new cfg weights) es (KeepsDeficit x) := by
  refine ⟨fun pre post he => ?_, fun pre e post _ => step_keepsDeficit x _ e⟩
  rw [he, along_append_iff] at h
  exact dispatchesOnce_of_inv (run_invariant_of_along (inv_step hx) (inv_new cfg weights) h.1)

end ReconcileQueue

/-- The crates on a queue whose demands need no ordering. -/
def unrankedShigoto : Shigoto where
  pick pending now _ slots := (pending.filter (Schedulable.eligible · now)).take slots
  tryAllocate t scope :=
    if (∀ c ∈ t.global, t.runningGlobal < c) ∧
        (∀ c ∈ t.byScope scope, t.runningScope scope < c) then
      some { t with runningGlobal := t.runningGlobal + 1,
                    runningScope := bump t.runningScope scope (t.runningScope scope + 1) }
    else none
  release t scope :=
    { t with runningGlobal := t.runningGlobal - 1,
             runningScope := bump t.runningScope scope (t.runningScope scope - 1) }

theorem unrankedShigoto_lawful : unrankedShigoto.Lawful where
  pick_perm pending now _ := by
    have htake := List.take_of_length_le
      (List.length_filter_le (Schedulable.eligible · now) pending)
    exact List.Perm.of_eq htake
  allocated t t' scope h := by
    simp only [unrankedShigoto] at h
    split at h
    · exact (Option.some.inj h).symm
    · cases h
  enforced t t' scope h := by
    simp only [unrankedShigoto] at h
    split at h
    · next hfree => exact hfree
    · cases h
  released _ _ _ _ := rfl

def oneUnit : ReconcileDemand := ⟨"prod/web", "ws", 2, 0, false, 0, 0, 0, true⟩

open ReconcileQueue in
/-- With one slot for the workspace the second tick finds it taken. -/
theorem one_slot_dispatches_once :
    DispatchesOnce ⟨1, 8⟩ (run (step unrankedShigoto) (new ⟨1, 8⟩ .default)
      [.register oneUnit, .tick 0, .tick 1, .complete "prod/web", .tick 2]) := by
  have hout : Along (step unrankedShigoto) (new ⟨1, 8⟩ .default)
      [.register oneUnit, .tick 0, .tick 1, .complete "prod/web", .tick 2] RunningKeptOut := by
    rw [along_cons_iff, along_cons_iff, along_cons_iff, along_cons_iff, along_cons_iff]
    refine ⟨trivial, ?_, ?_, trivial, ?_, along_nil _ _ _⟩ <;>
      simp only [RunningKeptOut] <;> decide +kernel
  exact (queue_dispatches_once unrankedShigoto_lawful ⟨1, 8⟩ .default hout).1 _ []
    (List.append_nil _).symm

open ReconcileQueue in
/-- With two slots the second tick hands out a second permit for the unit that is running. -/
theorem running_unit_is_dispatched_again :
    unrankedShigoto.Lawful ∧
    ¬DispatchesOnce .default (run (step unrankedShigoto) (new .default .default)
      [.register oneUnit, .tick 0, .tick 1]) := by
  refine ⟨unrankedShigoto_lawful, fun h => ?_⟩
  have htwo := h.single "prod/web"
  revert htwo
  decide +kernel

end PangeaOperator

import Mathlib
import PangeaOperator.LeafAdmit
import PangeaOperator.ScopeCaps

/-!
# The live gate of the leaves

`controller/template/leaf_gate.rs`. A call decides from a snapshot of all waiting candidates and
takes its permits from three budgets in sequence. It holds the lock of the waiting map throughout,
the budgets are locked access by access, so drops of permits come between.
-/

namespace PangeaOperator.LeafGate

open LeafAdmit

def seconds (n : Nat) : Nat := n * 1000000000

def queueTtl : Nat := seconds 360
def wokenTtl : Nat := seconds 60
def pollTtl : Nat := seconds 30
def wakePerRelease : Nat := 2

/-- The part of `LeafConfig` the gate reads. -/
structure LeafConfig where
  perCredentialCap : Nat
  driftSharePermille : Nat
  calibrate : Bool
  parkQueued : Bool
  priority : PriorityMode
  deriving DecidableEq, Repr

structure Waiting where
  seen : Nat
  candidate : Candidate
  scopeCap : Option Nat
  woken : Bool
  parked : Bool
  deriving DecidableEq, Repr

def Waiting.name (w : Waiting) : String := w.candidate.name

def Waiting.ttl (w : Waiting) : Nat :=
  match w.parked, w.woken with
  | false, _ => pollTtl
  | true, true => wokenTtl
  | true, false => queueTtl

def Waiting.live (w : Waiting) (now : Nat) : Bool := now - w.seen < w.ttl

/-- The map of the waiting by name. -/
structure Queue where
  entries : List Waiting
  sorted : entries.Pairwise (fun a b => a.name < b.name)

namespace Queue

def empty : Queue := ⟨[], .nil⟩

def retain (q : Queue) (now : Nat) : Queue :=
  ⟨q.entries.filter (·.live now), q.sorted.sublist List.filter_sublist⟩

def get (q : Queue) (key : String) : Option Waiting := q.entries.find? (·.name = key)

def remove (q : Queue) (key : String) : Queue :=
  ⟨q.entries.filter (·.name ≠ key), q.sorted.sublist List.filter_sublist⟩

theorem sorted_insert (q : Queue) (w : Waiting) : (q.entries.filter (·.name < w.name) ++
    w :: q.entries.filter (w.name < ·.name)).Pairwise (fun a b => a.name < b.name) := by
  have hbelow : ∀ a ∈ q.entries.filter (·.name < w.name), a.name < w.name :=
    fun a ha => of_decide_eq_true (List.mem_filter.mp ha).2
  have habove : ∀ b ∈ q.entries.filter (w.name < ·.name), w.name < b.name :=
    fun b hb => of_decide_eq_true (List.mem_filter.mp hb).2
  rw [List.pairwise_append, List.pairwise_cons]
  refine ⟨q.sorted.sublist List.filter_sublist,
    ⟨habove, q.sorted.sublist List.filter_sublist⟩, fun a ha b hb => ?_⟩
  rcases List.mem_cons.mp hb with rfl | hb
  · exact hbelow a ha
  · exact (hbelow a ha).trans (habove b hb)

def insert (q : Queue) (w : Waiting) : Queue :=
  ⟨q.entries.filter (·.name < w.name) ++ w :: q.entries.filter (w.name < ·.name),
    q.sorted_insert w⟩

/-- `get_mut` under each of some names: woken at an instant. -/
def wake (q : Queue) (names : List String) (now : Nat) : Queue :=
  ⟨q.entries.map (fun w => if w.name ∈ names then { w with woken := true, seen := now } else w), by
    rw [List.pairwise_map]
    refine q.sorted.imp (fun {a b} h => ?_)
    have hsame (w : Waiting) :
        (if w.name ∈ names then { w with woken := true, seen := now } else w).name = w.name := by
      split <;> rfl
    rwa [hsame a, hsame b]⟩

def candidates (q : Queue) : List Candidate := q.entries.map Waiting.candidate

end Queue

/-- The caps of a snapshot: a cap declared by a waiting candidate stands for its scope, the last
one in the order of the names if there are several. -/
def capsOf (cfg : LeafConfig) (budget : BudgetConfig) (q : Queue) : Caps where
  global := if cfg.calibrate then 1 else budget.global
  perScope := budget.perScope
  scopeCaps := q.entries.foldl (fun caps w => match w.scopeCap with
    | some n => fun s => if s = w.candidate.scope then some n else caps s
    | none => caps) (fun _ => none)
  perCredential := cfg.perCredentialCap
  driftSharePermille := cfg.driftSharePermille
  priority := cfg.priority

/-- The parts of the permits that have been handed out and not dropped. -/
structure Live where
  scopes : List BudgetPermit
  credentials : List BudgetPermit
  drift : List BudgetPermit
  deriving DecidableEq, Repr

/-- One part of a permit. The parts of one permit are dropped one after the other; here they may
be dropped in any order. -/
inductive Part where
  | scope (p : BudgetPermit)
  | credential (p : BudgetPermit)
  | drift (p : BudgetPermit)
  deriving DecidableEq, Repr

def Live.drop (l : Live) : Part → Live
  | .scope p => { l with scopes := l.scopes.erase p }
  | .credential p => { l with credentials := l.credentials.erase p }
  | .drift p => { l with drift := l.drift.erase p }

/-- The budget of the scopes, which the gate is given, and its own two. -/
structure Budgets where
  scopes : FairBudget
  credentials : FairBudget
  drift : FairBudget
  live : Live

namespace Budgets

def unbounded : BudgetConfig := ⟨usizeMax, usizeMax⟩

def new (cfg : BudgetConfig) : Budgets := ⟨.new cfg, .new unbounded, .new unbounded, ⟨[], [], []⟩⟩

def release (x : Shigoto) (b : Budgets) : Part → Budgets
  | .scope p =>
    if p ∈ b.live.scopes then
      { b with scopes := b.scopes.release x p.scope, live := b.live.drop (.scope p) }
    else b
  | .credential p =>
    if p ∈ b.live.credentials then
      { b with credentials := b.credentials.release x p.scope, live := b.live.drop (.credential p) }
    else b
  | .drift p =>
    if p ∈ b.live.drift then
      { b with drift := b.drift.release x p.scope, live := b.live.drop (.drift p) }
    else b

def releases (x : Shigoto) (b : Budgets) (parts : List Part) : Budgets :=
  parts.foldl (Budgets.release x) b

end Budgets

/-- The loop over the waiting, with the drops that come before each of its accesses. -/
def readCounts (x : Shigoto) (between : Nat → List Part) :
    List Waiting → Nat → Budgets → InFlight → Budgets × InFlight
  | [], _, b, f => (b, f)
  | w :: ws, i, b, f =>
    let c := w.candidate
    let b := b.releases x (between i)
    let f := { f with byScope := setCount f.byScope c.scope (b.scopes.inFlight c.scope) }
    let b := b.releases x (between (i + 1))
    let f := { f with driftByScope := setCount f.driftByScope c.scope (b.drift.inFlight c.scope) }
    let b := b.releases x (between (i + 2))
    let f := match c.credential with
      | some cred =>
        { f with byCredential := setCount f.byCredential cred (b.credentials.inFlight cred) }
      | none => f
    readCounts x between ws (i + 3) b f

inductive Denial where
  | globalFull (inFlight cap : Nat)
  | scopeFull (inFlight cap : Nat)
  | outranked
  deriving DecidableEq, Repr

/-- What the drop of a permit does last. -/
structure WakeOnRelease where
  scope : String
  priority : PriorityMode
  park : Bool
  deriving DecidableEq, Repr

structure LeafPermit where
  waited : Bool
  scope : BudgetPermit
  credential : Option BudgetPermit
  drift : Option BudgetPermit
  wake : WakeOnRelease
  deriving DecidableEq, Repr

inductive Verdict where
  | admitted (permit : LeafPermit)
  | queued (denial : Denial)
  deriving DecidableEq, Repr

def denial (caps : Caps) (f : InFlight) (c : Candidate) : Denial :=
  if caps.global ≤ f.total then .globalFull f.total caps.global
  else if caps.scopeCap c.scope ≤ f.byScope c.scope then
    .scopeFull (f.byScope c.scope) (caps.scopeCap c.scope)
  else .outranked

structure Gate where
  queue : Queue
  budgets : Budgets
  epoch : Nat

/-- The arguments of a call, and the drops of permits that come before each of its accesses to the
budgets. -/
structure Call where
  candidate : Candidate
  scopeCap : Option Nat
  now : Nat
  between : Nat → List Part

def u64Max : Nat := 2 ^ 64 - 1

namespace Gate

/-- The candidate as it waits: since the first call of a wait that still lives. -/
def waiter (g : Gate) (call : Call) : Candidate :=
  { call.candidate with
    since := match (g.queue.retain call.now).get call.candidate.name with
      | none => min ((call.now - g.epoch) / 1000000) u64Max
      | some w => w.candidate.since }

/-- The waiting map that a call decides from. -/
def enqueue (g : Gate) (cfg : LeafConfig) (call : Call) : Queue :=
  (g.queue.retain call.now).insert
    ⟨call.now, g.waiter call, call.scopeCap, false, cfg.parkQueued⟩

/-- The scope is taken: the credential's turn, which a cap of zero switches off. -/
def takeCredential (x : Shigoto) (cfg : LeafConfig) (b : Budgets) (c : Candidate) :
    Option (Option BudgetPermit) × Budgets :=
  match c.credential with
  | some cred =>
    if 0 < cfg.perCredentialCap then
      let out := b.credentials.tryAcquireCapped x cred (some cfg.perCredentialCap)
      match out.1 with
      | some p => (some (some p), { b with credentials := out.2 })
      | none => (none, { b with credentials := out.2 })
    else (some none, b)
  | none => (some none, b)

def takeDrift (x : Shigoto) (caps : Caps) (b : Budgets) (c : Candidate) :
    Option (Option BudgetPermit) × Budgets :=
  if c.workClass = .drift ∧ 0 < caps.driftSharePermille then
    let slots := driftSlots (caps.scopeCap c.scope) caps.driftSharePermille
    let out := b.drift.tryAcquireCapped x c.scope (some slots)
    match out.1 with
    | some p => (some (some p), { b with drift := out.2 })
    | none => (none, { b with drift := out.2 })
  else (some none, b)

/-- The drop of a scope permit that a call holds itself. -/
def giveScope (x : Shigoto) (b : Budgets) (p : BudgetPermit) : Budgets :=
  { b with scopes := b.scopes.release x p.scope }

def giveCredential (x : Shigoto) (b : Budgets) : Option BudgetPermit → Budgets
  | some p => { b with credentials := b.credentials.release x p.scope }
  | none => b

def keep (b : Budgets) (permit : LeafPermit) : Budgets :=
  { b with live :=
    ⟨permit.scope :: b.live.scopes, permit.credential.toList ++ b.live.credentials,
      permit.drift.toList ++ b.live.drift⟩ }

/-- `LeafGate::admit`. -/
def enter (x : Shigoto) (cfg : LeafConfig) (g : Gate) (call : Call) : Verdict × Gate :=
  let c := g.waiter call
  let waited := cfg.parkQueued && ((g.queue.retain call.now).get c.name).isSome
  let queue := g.enqueue cfg call
  let caps := capsOf cfg g.budgets.scopes.cfg queue
  let b := g.budgets.releases x (call.between 0)
  let read := readCounts x call.between queue.entries 1 b
    { InFlight.default with total := b.scopes.totalInFlight }
  let i := 1 + 3 * queue.entries.length
  if c.name ∈ admitLeaves queue.candidates caps read.2 then
    let b := read.1.releases x (call.between i)
    let scope := b.scopes.tryAcquireCapped x c.scope call.scopeCap
    let b := { b with scopes := scope.2 }
    match scope.1 with
    | none => (.queued (denial caps read.2 c), { g with queue := queue, budgets := b })
    | some scope =>
      let credential := takeCredential x cfg (b.releases x (call.between (i + 1))) c
      match credential.1 with
      | none =>
        (.queued .outranked, { g with queue := queue, budgets := giveScope x credential.2 scope })
      | some held =>
        let drift := takeDrift x caps (credential.2.releases x (call.between (i + 2))) c
        match drift.1 with
        | none =>
          (.queued .outranked,
            { g with queue := queue, budgets := giveScope x (giveCredential x drift.2 held) scope })
        | some driftHeld =>
          let permit : LeafPermit :=
            ⟨waited, scope, held, driftHeld, ⟨c.scope, cfg.priority, cfg.parkQueued⟩⟩
          (.admitted permit,
            { g with queue := queue.remove c.name, budgets := keep drift.2 permit })
  else (.queued (denial caps read.2 c), { g with queue := queue, budgets := read.1 })

end Gate

/-- The loop that fills the names to wake up to their number. -/
def fill : List Candidate → List String → List String
  | [], chosen => chosen
  | c :: cs, chosen =>
    if wakePerRelease ≤ chosen.length then chosen
    else fill cs (if c.name ∈ chosen then chosen else chosen ++ [c.name])

/-- The names a release wakes, from the waiting in rank order. -/
def choose (ranked : List Candidate) (scope : String) : List String :=
  fill ranked ((ranked.find? (·.scope = scope)).map Candidate.name).toList

/-- The candidates that a release may wake. -/
def asleep (q : Queue) : List Candidate :=
  (q.entries.filter (fun w => !w.woken)).map Waiting.candidate

/-- `WakeOnRelease::drop`: the names sent, and the map it leaves. -/
def WakeOnRelease.drop (k : WakeOnRelease) (q : Queue) (now : Nat) : List String × Queue :=
  if k.park then
    let q := q.retain now
    let chosen := choose (order (asleep q) k.priority) k.scope
    (chosen, q.wake chosen now)
  else ([], q)

end PangeaOperator.LeafGate

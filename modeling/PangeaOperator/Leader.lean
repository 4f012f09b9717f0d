import PangeaOperator.Crd
import PangeaOperator.Lib.Run

/-!
# Leader election

`leader.rs` and the leadership part of `main.rs`. Every pod ticks on one Lease: it reads,
decides, and creates the lease or replaces the version it read. A pod that holds the lease
reconciles until `main` has aborted its controllers, whatever its renewals do meanwhile.
-/

namespace PangeaOperator

/-- `pod_identity` never gives an empty text. -/
abbrev PodIdentity := { s : String // s ≠ "" }

structure LeaseSpec where
  holderIdentity : Option String := none
  leaseDurationSeconds : Option Int32 := none
  acquireTime : Option Time := none
  renewTime : Option Time := none
  leaseTransitions : Option Int32 := none
  deriving DecidableEq

structure Lease where
  resourceVersion : Nat
  spec : Option LeaseSpec
  deriving DecidableEq

inductive LeaseDecision where
  | acquire
  | wait
  deriving DecidableEq, Repr

/-- How long a recorded duration keeps others away. -/
def leaseSpan (leaseDurationSecs : Int32) : Time := seconds (max leaseDurationSecs.toInt 0)

def decideLease (identity : String) (holder : Option String) (renewTime : Option Time)
    (leaseDurationSecs : Int32) (now : Time) : LeaseDecision :=
  match holder with
  | none => .acquire
  | some h =>
    if h = "" then .acquire
    else if h = identity then .acquire
    else
      let expired := match renewTime with
        | none => true
        | some rt => decide (now - rt > leaseSpan leaseDurationSecs)
      if expired then .acquire else .wait

/-- `as_secs() as i32`. -/
def durationSecs (leaseDuration : UInt64) : Int32 := leaseDuration.toUInt32.toInt32

/-- A `MicroTime` is stored with six digits of the second. -/
def microTime (t : Time) : Time := t - t % 1000

/-- The spec that `build_lease` writes. -/
def buildLease (leaseDuration : UInt64) (identity : String) (acquireTime renewTime : Time)
    (transitions : Int32) : LeaseSpec where
  holderIdentity := some identity
  leaseDurationSeconds := some (durationSecs leaseDuration)
  acquireTime := some (microTime acquireTime)
  renewTime := some (microTime renewTime)
  leaseTransitions := some transitions

/-- The spec that a tick writes over the one it read. -/
def takeLease (leaseDuration : UInt64) (identity : String) (spec : LeaseSpec) (now : Time) :
    LeaseSpec :=
  let heldByUs := spec.holderIdentity = some identity
  buildLease leaseDuration identity (if heldByUs then spec.acquireTime.getD now else now) now
    (spec.leaseTransitions.getD 0 + if heldByUs then 0 else 1)

/-- What a tick returns; an API error is told apart from the missing permission. -/
inductive TickAnswer where
  | held
  | notHeld
  | failed
  | forbidden
  deriving DecidableEq, Repr

/-- An election tick between two of its requests. -/
inductive Tick where
  | started (now : Time)
  | creating (now : Time)
  | replacing (now : Time) (existing : Lease)
  | answered (answer : TickAnswer)
  deriving DecidableEq

/-- The time the tick read from the clock. -/
def Tick.now : Tick → Option Time
  | started now => some now
  | creating now => some now
  | replacing now _ => some now
  | answered _ => none

/-- Where `main` stands: in `acquire`, with `keep_renewed` running, told to stop while it still
runs, after it returned, without a lease, or with its controllers aborted. -/
inductive PodMode where
  | acquiring
  | leading
  | terminating
  | draining
  | singleton
  | stopped
  deriving DecidableEq, Repr

structure Pod where
  mode : PodMode := .acquiring
  tick : Option Tick := none
  /-- The renew time of the pod's last write that the server took. -/
  written : Option Time := none
  deriving DecidableEq

/-- From the moment `acquire` returned the lease until the controllers are aborted. -/
def Pod.Reconciling (p : Pod) : Prop :=
  p.mode = .leading ∨ p.mode = .terminating ∨ p.mode = .draining

def Pod.ticks (p : Pod) : Bool := p.mode = .acquiring || p.mode = .leading || p.mode = .terminating

/-- What the loops of `acquire` and `keep_renewed` do with an answer. -/
def Pod.finish (p : Pod) (answer : TickAnswer) : Pod :=
  { p with
    tick := none
    mode := match p.mode, answer with
      | .acquiring, .held => .leading
      | .acquiring, .forbidden => .singleton
      | .leading, .notHeld => .draining
      | .terminating, .notHeld => .draining
      | mode, _ => mode }

structure Cluster where
  clock : Time
  lease : Option Lease
  /-- The last resource version the server gave out. -/
  version : Nat
  pods : PodIdentity → Pod

/-- How a read ends for the client. -/
inductive ReadReply where
  | answered
  | failed
  | forbidden
  deriving DecidableEq, Repr

/-- How a write ends: `lost` reached the server and the client sees an error. -/
inductive WriteReply where
  | answered
  | lost
  | failed
  | forbidden
  deriving DecidableEq, Repr

inductive ElectionEvent where
  | advance (d : Nat)
  | start (i : PodIdentity)
  | read (i : PodIdentity) (reply : ReadReply)
  | write (i : PodIdentity) (reply : WriteReply)
  | finish (i : PodIdentity)
  | terminate (i : PodIdentity)
  | abort (i : PodIdentity)
  | restart (i : PodIdentity)
  deriving DecidableEq

namespace Cluster

def setPod (c : Cluster) (i : PodIdentity) (p : Pod) : Cluster :=
  { c with pods := fun j => if j = i then p else c.pods j }

@[simp] theorem setPod_same (c : Cluster) (i : PodIdentity) (p : Pod) :
    (c.setPod i p).pods i = p := if_pos rfl

@[simp] theorem setPod_other (c : Cluster) {i j : PodIdentity} (p : Pod) (h : j ≠ i) :
    (c.setPod i p).pods j = c.pods j := if_neg h

variable (leaseDuration : UInt64)

/-- The read of a tick, and what it decides on the lease it finds. -/
def readTick (c : Cluster) (i : PodIdentity) (now : Time) : ReadReply → Tick
  | .failed => .answered .failed
  | .forbidden => .answered .forbidden
  | .answered =>
    match c.lease with
    | none => .creating now
    | some existing =>
      let spec := existing.spec.getD {}
      match decideLease i.val spec.holderIdentity spec.renewTime
          (spec.leaseDurationSeconds.getD (durationSecs leaseDuration)) now with
      | .wait => .answered .notHeld
      | .acquire => .replacing now existing

/-- The server takes a write of this spec; the client hears of it or not. -/
def written (c : Cluster) (i : PodIdentity) (spec : LeaseSpec) (now : Time)
    (answer : TickAnswer) : Cluster :=
  { c with lease := some ⟨c.version + 1, some spec⟩, version := c.version + 1 }.setPod i
    { c.pods i with tick := some (.answered answer), written := some (microTime now) }

def answerTick (c : Cluster) (i : PodIdentity) (answer : TickAnswer) : Cluster :=
  c.setPod i { c.pods i with tick := some (.answered answer) }

/-- A create, which finds the lease or not. -/
def createLease (c : Cluster) (i : PodIdentity) (now : Time) (answer conflict : TickAnswer) :
    Cluster :=
  match c.lease with
  | none => c.written i (buildLease leaseDuration i.val now now 0) now answer
  | some _ => c.answerTick i conflict

/-- A replace, which finds the version it carries or not. -/
def replaceLease (c : Cluster) (i : PodIdentity) (now : Time) (existing : Lease)
    (answer conflict : TickAnswer) : Cluster :=
  if c.lease.map Lease.resourceVersion = some existing.resourceVersion then
    c.written i (takeLease leaseDuration i.val (existing.spec.getD {}) now) now answer
  else c.answerTick i conflict

def writeTick (c : Cluster) (i : PodIdentity) (reply : WriteReply) : Cluster :=
  match (c.pods i).tick with
  | some (.creating now) =>
    match reply with
    | .answered => c.createLease leaseDuration i now .held .notHeld
    | .lost => c.createLease leaseDuration i now .failed .failed
    | .failed => c.answerTick i .failed
    | .forbidden => c.answerTick i .forbidden
  | some (.replacing now existing) =>
    match reply with
    | .answered => c.replaceLease leaseDuration i now existing .held .notHeld
    | .lost => c.replaceLease leaseDuration i now existing .failed .failed
    | .failed => c.answerTick i .failed
    | .forbidden => c.answerTick i .forbidden
  | _ => c

def step (c : Cluster) : ElectionEvent → Cluster
  | .advance d => { c with clock := c.clock + d }
  | .start i =>
    if (c.pods i).tick = none ∧ (c.pods i).ticks then
      c.setPod i { c.pods i with tick := some (.started c.clock) }
    else c
  | .read i reply =>
    match (c.pods i).tick with
    | some (.started now) =>
      c.setPod i { c.pods i with tick := some (c.readTick leaseDuration i now reply) }
    | _ => c
  | .write i reply => c.writeTick leaseDuration i reply
  | .finish i =>
    match (c.pods i).tick with
    | some (.answered answer) => c.setPod i ((c.pods i).finish answer)
    | _ => c
  | .terminate i =>
    match (c.pods i).mode with
    | .acquiring => c.setPod i { mode := .stopped }
    | .leading => c.setPod i { c.pods i with mode := .terminating }
    | _ => c
  | .abort i =>
    match (c.pods i).mode with
    | .terminating | .draining | .singleton => c.setPod i { mode := .stopped }
    | _ => c
  | .restart i => if (c.pods i).mode = .stopped then c.setPod i {} else c

/-- No pod has ticked yet, on whatever lease there is. -/
def start (clock : Time) (lease : Option Lease) : Cluster where
  clock := clock
  lease := lease
  version := (lease.map Lease.resourceVersion).getD 0
  pods := fun _ => {}

end Cluster

end PangeaOperator

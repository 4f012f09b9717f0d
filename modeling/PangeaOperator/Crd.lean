import PangeaOperator.Lib.Codec

/-!
# The resource's records

The enumerations and records of `crd/infrastructure_template.rs`,
`crd/pass_status.rs` and `crd/live_status.rs` that the controller reads or writes,
each with the codec serde derives for it. Records that no modelled function looks
into stay the member lists they are on the wire.
-/

namespace PangeaOperator

open Json

/-- An instant or a span, in nanoseconds. -/
abbrev Time := Int

def seconds (n : Int) : Time := n * 1000000000

/-- `chrono::Duration::num_seconds`, which drops the fraction towards zero. -/
def numSeconds (d : Time) : Int := d.tdiv 1000000000

/-- `u32::saturating_add(1)`. -/
def saturatingSucc (n : Nat) : Nat := min (n + 1) (2 ^ 32 - 1)

def padded (width n : Nat) : String :=
  String.ofList (List.replicate (width - (Nat.toDigits 10 n).length) '0' ++ Nat.toDigits 10 n)

/-- Proleptic Gregorian year, month and day of a day number counted from 1970-01-01. -/
def civil (days : Int) : Int × Nat × Nat :=
  let z := days + 719468
  let era := z / 146097
  let doe := (z - era * 146097).toNat
  let yoe := (doe - doe / 1460 + doe / 36524 - doe / 146096) / 365
  let doy := doe - (365 * yoe + yoe / 4 - yoe / 100)
  let mp := (5 * doy + 2) / 153
  let day := doy - (153 * mp + 2) / 5 + 1
  let month := if mp < 10 then mp + 3 else mp - 9
  (yoe + era * 400 + (if month ≤ 2 then 1 else 0), month, day)

/-- The shortest of no, 3, 6 and 9 digits that loses nothing. -/
def subsecond (nanos : Nat) : String :=
  if nanos = 0 then ""
  else if nanos % 1000000 = 0 then "." ++ padded 3 (nanos / 1000000)
  else if nanos % 1000 = 0 then "." ++ padded 6 (nanos / 1000)
  else "." ++ padded 9 nanos

/-- `DateTime<Utc>::to_rfc3339`. -/
def toRfc3339 (t : Time) : String :=
  let secs := t / 1000000000
  let ymd := civil (secs / 86400)
  let sod := (secs % 86400).toNat
  let year := if 0 ≤ ymd.1 ∧ ymd.1 ≤ 9999 then padded 4 ymd.1.toNat
    else (if ymd.1 < 0 then "-" else "+") ++ padded 4 ymd.1.natAbs
  year ++ "-" ++ padded 2 ymd.2.1 ++ "-" ++ padded 2 ymd.2.2 ++
    "T" ++ padded 2 (sod / 3600) ++ ":" ++
    padded 2 (sod / 60 % 60) ++ ":" ++ padded 2 (sod % 60) ++
    subsecond (t % 1000000000).toNat ++ "+00:00"

example : toRfc3339 (seconds 1800000000) = "2027-01-15T08:00:00+00:00" := by decide

inductive Phase where
  | pending
  | verifying
  | verified
  | compiling
  | initializing
  | planning
  | applying
  | ready
  | drifted
  | failed
  | compileBlocked
  | destroying
  deriving DecidableEq, Repr

namespace Phase

def name : Phase → String
  | pending => "Pending"
  | verifying => "Verifying"
  | verified => "Verified"
  | compiling => "Compiling"
  | initializing => "Initializing"
  | planning => "Planning"
  | applying => "Applying"
  | ready => "Ready"
  | drifted => "Drifted"
  | failed => "Failed"
  | compileBlocked => "CompileBlocked"
  | destroying => "Destroying"

def parse (s : String) : Option Phase :=
  [pending, verifying, verified, compiling, initializing, planning, applying, ready, drifted,
    failed, compileBlocked, destroying].find? (fun p => p.name == s)

def codec : Codec Phase := .enum name parse (by intro p; cases p <;> rfl)

end Phase

structure Condition where
  type : String
  status : String
  lastTransitionTime : Time
  reason : String
  message : String
  observedGeneration : Option Int
  deriving DecidableEq, Repr

namespace Condition

def enc (c : Condition) : Doc :=
  record [
    ("type", (Slot.required .string).put c.type),
    ("status", (Slot.required .string).put c.status),
    ("lastTransitionTime", (Slot.required .time).put c.lastTransitionTime),
    ("reason", (Slot.required .string).put c.reason),
    ("message", (Slot.required .string).put c.message),
    ("observedGeneration", (Slot.optional .int).put c.observedGeneration)]

def dec (v : Doc) : Option Condition := do
  let type ← (Slot.required .string).take (v.get? "type")
  let status ← (Slot.required .string).take (v.get? "status")
  let lastTransitionTime ← (Slot.required .time).take (v.get? "lastTransitionTime")
  let reason ← (Slot.required .string).take (v.get? "reason")
  let message ← (Slot.required .string).take (v.get? "message")
  let observedGeneration ← (Slot.optional .int).take (v.get? "observedGeneration")
  pure ⟨type, status, lastTransitionTime, reason, message, observedGeneration⟩

def codec : Codec Condition where
  enc := enc
  dec := dec
  dec_enc c := by simp [enc, dec]
  enc_ne_null c := by simp [enc]

end Condition

structure ResourceSummary where
  total : Nat
  added : Nat
  changed : Nat
  destroyed : Nat
  deriving DecidableEq, Repr

namespace ResourceSummary

def fields (r : ResourceSummary) : List (String × Option Doc) := [
  ("total", (Slot.withDefault .nat 0).put r.total),
  ("added", (Slot.withDefault .nat 0).put r.added),
  ("changed", (Slot.withDefault .nat 0).put r.changed),
  ("destroyed", (Slot.withDefault .nat 0).put r.destroyed)]

def enc (r : ResourceSummary) : Doc := record r.fields

def dec (v : Doc) : Option ResourceSummary := do
  let total ← (Slot.withDefault .nat 0).take (v.get? "total")
  let added ← (Slot.withDefault .nat 0).take (v.get? "added")
  let changed ← (Slot.withDefault .nat 0).take (v.get? "changed")
  let destroyed ← (Slot.withDefault .nat 0).take (v.get? "destroyed")
  pure ⟨total, added, changed, destroyed⟩

def codec : Codec ResourceSummary where
  enc := enc
  dec := dec
  dec_enc r := by simp [enc, dec, fields]
  enc_ne_null r := by simp [enc]

end ResourceSummary

/-- One drifting resource: names only, the differing values stay out of the API. -/
structure DriftDetail where
  address : String
  action : String
  risk : String
  attributes : List String
  policyDecision : Option String
  matchedPolicy : Option String
  deriving DecidableEq, Repr

namespace DriftDetail

def fields (d : DriftDetail) : List (String × Option Doc) := [
  ("address", (Slot.required .string).put d.address),
  ("action", (Slot.required .string).put d.action),
  ("risk", (Slot.required .string).put d.risk),
  ("attributes", (Slot.nonempty .string).put d.attributes),
  ("policyDecision", (Slot.optional .string).put d.policyDecision),
  ("matchedPolicy", (Slot.optional .string).put d.matchedPolicy)]

def enc (d : DriftDetail) : Doc := record d.fields

def dec (v : Doc) : Option DriftDetail := do
  let address ← (Slot.required .string).take (v.get? "address")
  let action ← (Slot.required .string).take (v.get? "action")
  let risk ← (Slot.required .string).take (v.get? "risk")
  let attributes ← (Slot.nonempty .string).take (v.get? "attributes")
  let policyDecision ← (Slot.optional .string).take (v.get? "policyDecision")
  let matchedPolicy ← (Slot.optional .string).take (v.get? "matchedPolicy")
  pure ⟨address, action, risk, attributes, policyDecision, matchedPolicy⟩

def codec : Codec DriftDetail where
  enc := enc
  dec := dec
  dec_enc d := by simp [enc, dec, fields]
  enc_ne_null d := by simp [enc]

end DriftDetail

structure PolicyEvaluation where
  aggregate : String
  autoApplyCount : Nat
  requireApprovalCount : Nat
  refuseCount : Nat
  refusedAddresses : List String
  evaluatedCount : Nat
  deriving DecidableEq, Repr

namespace PolicyEvaluation

def fields (e : PolicyEvaluation) : List (String × Option Doc) := [
  ("aggregate", (Slot.required .string).put e.aggregate),
  ("autoApplyCount", (Slot.withDefault .nat 0).put e.autoApplyCount),
  ("requireApprovalCount", (Slot.withDefault .nat 0).put e.requireApprovalCount),
  ("refuseCount", (Slot.withDefault .nat 0).put e.refuseCount),
  ("refusedAddresses", (Slot.nonempty .string).put e.refusedAddresses),
  ("evaluatedCount", (Slot.withDefault .nat 0).put e.evaluatedCount)]

def enc (e : PolicyEvaluation) : Doc := record e.fields

def dec (v : Doc) : Option PolicyEvaluation := do
  let aggregate ← (Slot.required .string).take (v.get? "aggregate")
  let autoApplyCount ← (Slot.withDefault .nat 0).take (v.get? "autoApplyCount")
  let requireApprovalCount ← (Slot.withDefault .nat 0).take (v.get? "requireApprovalCount")
  let refuseCount ← (Slot.withDefault .nat 0).take (v.get? "refuseCount")
  let refusedAddresses ← (Slot.nonempty .string).take (v.get? "refusedAddresses")
  let evaluatedCount ← (Slot.withDefault .nat 0).take (v.get? "evaluatedCount")
  pure ⟨aggregate, autoApplyCount, requireApprovalCount, refuseCount, refusedAddresses,
    evaluatedCount⟩

def codec : Codec PolicyEvaluation where
  enc := enc
  dec := dec
  dec_enc e := by simp [enc, dec, fields]
  enc_ne_null e := by simp [enc]

end PolicyEvaluation

inductive PassKind where
  | settled
  | pending
  | planning
  | applying
  | failed
  | stalled
  deriving DecidableEq, Repr

namespace PassKind

def name : PassKind → String
  | settled => "settled"
  | pending => "pending"
  | planning => "planning"
  | applying => "applying"
  | failed => "failed"
  | stalled => "stalled"

def parse (s : String) : Option PassKind :=
  [settled, pending, planning, applying, failed, stalled].find? (fun k => k.name == s)

def codec : Codec PassKind := .enum name parse (by intro k; cases k <;> rfl)

end PassKind

inductive StallState where
  | queuedBehind
  | pendingNotStarted
  | heartbeatLost
  | orphanedPhase
  | noProgress
  | unnamed
  deriving DecidableEq, Repr

namespace StallState

def name : StallState → String
  | queuedBehind => "queuedBehind"
  | pendingNotStarted => "pendingNotStarted"
  | heartbeatLost => "heartbeatLost"
  | orphanedPhase => "orphanedPhase"
  | noProgress => "noProgress"
  | unnamed => "unnamed"

def parse (s : String) : Option StallState :=
  [queuedBehind, pendingNotStarted, heartbeatLost, orphanedPhase, noProgress, unnamed].find?
    (fun k => k.name == s)

def codec : Codec StallState := .enum name parse (by intro k; cases k <;> rfl)

end StallState

/-- Every member is written, `null` when there is nothing to say. -/
structure PassStatus where
  kind : PassKind
  generation : Int
  since : Option Time
  heartbeatAt : Option Time
  reason : Option String
  queuedGeneration : Option Int
  queuedSince : Option Time
  stall : Option StallState
  incarnation : Option String
  deriving DecidableEq, Repr

namespace PassStatus

def fields (p : PassStatus) : List (String × Option Doc) := [
  ("kind", (Slot.required PassKind.codec).put p.kind),
  ("generation", (Slot.required .int).put p.generation),
  ("since", (Slot.nullable .time).put p.since),
  ("heartbeatAt", (Slot.nullable .time).put p.heartbeatAt),
  ("reason", (Slot.nullable .string).put p.reason),
  ("queuedGeneration", (Slot.nullable .int).put p.queuedGeneration),
  ("queuedSince", (Slot.nullable .time).put p.queuedSince),
  ("stall", (Slot.nullable StallState.codec).put p.stall),
  ("incarnation", (Slot.nullable .string).put p.incarnation)]

def enc (p : PassStatus) : Doc := record p.fields

def dec (v : Doc) : Option PassStatus := do
  let kind ← (Slot.required PassKind.codec).take (v.get? "kind")
  let generation ← (Slot.required .int).take (v.get? "generation")
  let since ← (Slot.nullable .time).take (v.get? "since")
  let heartbeatAt ← (Slot.nullable .time).take (v.get? "heartbeatAt")
  let reason ← (Slot.nullable .string).take (v.get? "reason")
  let queuedGeneration ← (Slot.nullable .int).take (v.get? "queuedGeneration")
  let queuedSince ← (Slot.nullable .time).take (v.get? "queuedSince")
  let stall ← (Slot.nullable StallState.codec).take (v.get? "stall")
  let incarnation ← (Slot.nullable .string).take (v.get? "incarnation")
  pure ⟨kind, generation, since, heartbeatAt, reason, queuedGeneration, queuedSince, stall,
    incarnation⟩

def codec : Codec PassStatus where
  enc := enc
  dec := dec
  dec_enc p := by simp [enc, dec, fields]
  enc_ne_null p := by simp [enc]

end PassStatus

structure InFlightCall where
  address : String
  rpc : Option String
  since : Time
  deriving DecidableEq, Repr

namespace InFlightCall

def enc (c : InFlightCall) : Doc :=
  record [
    ("address", (Slot.required .string).put c.address),
    ("rpc", (Slot.optional .string).put c.rpc),
    ("since", (Slot.required .time).put c.since)]

def dec (v : Doc) : Option InFlightCall := do
  let address ← (Slot.required .string).take (v.get? "address")
  let rpc ← (Slot.optional .string).take (v.get? "rpc")
  let since ← (Slot.required .time).take (v.get? "since")
  pure ⟨address, rpc, since⟩

def codec : Codec InFlightCall where
  enc := enc
  dec := dec
  dec_enc c := by simp [enc, dec]
  enc_ne_null c := by simp [enc]

end InFlightCall

/-- The part of the live progress record that the stall detection reads. -/
structure LiveProgress where
  resourcesTotal : Option Nat
  resourcesDone : Nat
  inFlight : Option InFlightCall
  lastProgressAt : Time
  finishedAt : Option Time
  deriving DecidableEq, Repr

namespace LiveProgress

def enc (p : LiveProgress) : Doc :=
  record [
    ("resourcesTotal", (Slot.optional .nat).put p.resourcesTotal),
    ("resourcesDone", (Slot.withDefault .nat 0).put p.resourcesDone),
    ("inFlight", (Slot.optional InFlightCall.codec).put p.inFlight),
    ("lastProgressAt", (Slot.required .time).put p.lastProgressAt),
    ("finishedAt", (Slot.optional .time).put p.finishedAt)]

def dec (v : Doc) : Option LiveProgress := do
  let resourcesTotal ← (Slot.optional .nat).take (v.get? "resourcesTotal")
  let resourcesDone ← (Slot.withDefault .nat 0).take (v.get? "resourcesDone")
  let inFlight ← (Slot.optional InFlightCall.codec).take (v.get? "inFlight")
  let lastProgressAt ← (Slot.required .time).take (v.get? "lastProgressAt")
  let finishedAt ← (Slot.optional .time).take (v.get? "finishedAt")
  pure ⟨resourcesTotal, resourcesDone, inFlight, lastProgressAt, finishedAt⟩

def codec : Codec LiveProgress where
  enc := enc
  dec := dec
  dec_enc p := by simp [enc, dec]
  enc_ne_null p := by simp [enc]

end LiveProgress

end PangeaOperator

import PangeaOperator.Import
import PangeaOperator.Lib.Numeral
import PangeaOperator.Retry

/-!
# Reactive policies

`controller/reactive.rs` decides whether a template is in a bad state, and
`controller/template/reactive_policy.rs` acts on it after every reconcile: an event, the
Healthy condition with the tracking fields, and for a phase that timed out a second patch
that forces it to Failed. Routing is delivery and stays out.
-/

namespace PangeaOperator

open Json

structure PhaseTimeoutPolicy where
  compiling : String := "5m"
  planning : String := "10m"
  applying : String := "30m"
  onTimeout : ReactiveAction := .alert
  deriving DecidableEq, Repr

structure VerifiedBlockedPolicy where
  timeout : String := "10m"
  onBlocked : ReactiveAction := .alert
  deriving DecidableEq, Repr

structure ReactivePolicy where
  failureEscalation : Option FailureEscalation := none
  phaseTimeout : Option PhaseTimeoutPolicy := none
  verifiedBlocked : Option VerifiedBlockedPolicy := none
  deriving DecidableEq, Repr

/-- A field that the layer sets wins. -/
def ReactivePolicy.merge (policy layer : ReactivePolicy) : ReactivePolicy where
  failureEscalation := layer.failureEscalation.or policy.failureEscalation
  phaseTimeout := layer.phaseTimeout.or policy.phaseTimeout
  verifiedBlocked := layer.verifiedBlocked.or policy.verifiedBlocked

structure EffectiveReactivePolicy where
  failure : FailureEscalation := ⟨5, .alert⟩
  phaseTimeout : PhaseTimeoutPolicy := {}
  verifiedBlocked : VerifiedBlockedPolicy := {}
  deriving DecidableEq, Repr

/-- `CascadePolicy::resolve` of the layers over a policy, as `resolve` describes it. -/
abbrev Cascade : Type := List (Option ReactivePolicy) → ReactivePolicy → ReactivePolicy

def innermostWins : Cascade := fun layers policy =>
  layers.foldl (fun policy layer => layer.elim policy policy.merge) policy

/-- The workspace's policy, the template's over it, and the defaults under both. -/
def EffectiveReactivePolicy.resolve (cascade : Cascade)
    (templatePolicy workspacePolicy : Option ReactivePolicy) : EffectiveReactivePolicy :=
  let merged := cascade [workspacePolicy, templatePolicy] {}
  { failure := merged.failureEscalation.getD ⟨5, .alert⟩
    phaseTimeout := merged.phaseTimeout.getD {}
    verifiedBlocked := merged.verifiedBlocked.getD {} }

section Duration

def stripSuffix (c : Char) (cs : List Char) : Option (List Char) :=
  if cs.getLast? = some c then some cs.dropLast else none

/-- Whole seconds. The products are `u64` and wrap. -/
def parseDuration (s : String) : Option Nat :=
  let trimmed := trimMatches isWhitespace s.toList
  let scaled (c : Char) (unit : Nat) : Option Nat :=
    ((stripSuffix c trimmed).bind parseU64).map (fun n => n * unit % UInt64.size)
  ((scaled 's' 1).or (scaled 'm' 60)).or (scaled 'h' 3600)

/-- `chrono::Duration::from_std`, which has `i64` milliseconds. -/
def fromStd (secs : Nat) : Option Time :=
  if secs ≤ 9223372036854775 then some (seconds secs) else none

example : (parseDuration " 5m ").bind fromStd = some (seconds 300) := by decide +kernel

end Duration

/-- The later of the phase's start and, while applying, the last advance of the apply frontier. -/
def livenessWitness (s : Status) (phase : Phase) (entered : Time) : Time × String :=
  match phase, s.applyCursorAdvancedAt with
  | .applying, some advanced =>
    if entered < advanced then (advanced, "applyCursorAdvancedAt") else (entered, "phaseEnteredAt")
  | _, _ => (entered, "phaseEnteredAt")

/-- The phases that time out. -/
def PhaseTimeoutPolicy.threshold (policy : PhaseTimeoutPolicy) : Phase → Option String
  | .compiling => some policy.compiling
  | .planning => some policy.planning
  | .applying => some policy.applying
  | _ => none

def timeoutReason (phase : Phase) : String := "PhaseTimeout:" ++ phase.name

def checkPhaseTimeout (s : Status) (policy : PhaseTimeoutPolicy) (now : Time) : Option Trigger := do
  let phase ← s.phase
  let entered ← s.phaseEnteredAt
  let thresholdStr ← policy.threshold phase
  let threshold ← (parseDuration thresholdStr).bind fromStd
  let witness := livenessWitness s phase entered
  let applied := (s.applyCursorCount.map toString).getD "(none)"
  if now - witness.1 < threshold then none
  else some ⟨policy.onTimeout, timeoutReason phase,
    s!"no progress in phase {phase.name} for {numSeconds (now - witness.1)}s measured from " ++
      s!"{witness.2} (threshold: {thresholdStr}; phase entered " ++
      s!"{numSeconds (now - entered)}s ago, appliedCount: {applied})"⟩

def trackApplyProgress (prevCount : Option Nat) (prevAdvancedAt : Option Time)
    (observed : Option Nat) (now : Time) : Option Nat × Option Time :=
  match observed with
  | none => (prevCount, prevAdvancedAt)
  | some count =>
    if prevCount ≠ some count then (some count, some now)
    else (some count, prevAdvancedAt.or (some now))

def checkVerifiedBlocked (s : Status) (policy : VerifiedBlockedPolicy) (now : Time) :
    Option Trigger := do
  let blockedSince ← s.verifiedBlockedSince
  let threshold ← (parseDuration policy.timeout).bind fromStd
  if now - blockedSince < threshold then none
  else some ⟨policy.onBlocked, "VerifiedBlocked",
    s!"Verified=False for {numSeconds (now - blockedSince)}s (threshold: {policy.timeout})"⟩

def trackVerifiedBlocked (s : Status) (now : Time) : Option Time :=
  if s.conditions.any (fun c => c.type = "Verified" && c.status = "False") then
    s.verifiedBlockedSince.or (some now)
  else none

inductive Escalation where
  | healthy
  | triggered (trigger : Trigger)
  deriving DecidableEq, Repr

def Escalation.reason : Escalation → Option String
  | healthy => none
  | triggered t => some t.reason

def ReactiveAction.severity : ReactiveAction → Nat
  | suspend => 3
  | page => 2
  | alert => 1

/-- `Iterator::max_by_key`: of several greatest elements the last. -/
def maxByKey {α : Type} (key : α → Nat) : List α → Option α
  | [] => none
  | a :: as => some (as.foldl (fun x y => if key y < key x then x else y) a)

def pickWorst (triggers : List Trigger) : Escalation :=
  match maxByKey (fun t => t.action.severity) triggers with
  | none => .healthy
  | some worst => .triggered worst

def evaluate (status : Option Status) (policy : EffectiveReactivePolicy) (now : Time) :
    Escalation :=
  match status with
  | none => .healthy
  | some s =>
    pickWorst ((checkFailure s policy.failure).toList ++
      (checkPhaseTimeout s policy.phaseTimeout now).toList ++
      (checkVerifiedBlocked s policy.verifiedBlocked now).toList)

/-- What one run of the stage takes from outside the status: the two policies, the library's way
to lay one over the other, the approval in the spec, the clock, the size of the stored apply
cursor, the admission gate, and whether the API server takes each of its patches. -/
structure ReactiveInput where
  cascade : Cascade := innermostWins
  templatePolicy : Option ReactivePolicy := none
  workspacePolicy : Option ReactivePolicy := none
  specApproved : Option String := none
  now : Time
  cursorLen : Option Nat := none
  queued : Bool := false
  patched : Bool := true
  reset : Bool := true

section Stage

variable (status : Option Status) (i : ReactiveInput)

def sampleApplyFrontier : Option Nat :=
  if status.bind Status.phase = some .applying then i.cursorLen else none

def newBlockedSince : Option Time := status.bind (fun s => trackVerifiedBlocked s i.now)

def newCursor : Option Nat × Option Time :=
  trackApplyProgress (status.bind Status.applyCursorCount)
    (status.bind Status.applyCursorAdvancedAt) (sampleApplyFrontier status i) i.now

/-- The status with the freshest clocks, which the policies are evaluated on. -/
def statusForEval : Option Status :=
  status.map (fun s => { s with
    verifiedBlockedSince := newBlockedSince status i
    applyCursorCount := (newCursor status i).1
    applyCursorAdvancedAt := (newCursor status i).2 })

def stageEscalation : Escalation :=
  evaluate (statusForEval status i) (.resolve i.cascade i.templatePolicy i.workspacePolicy) i.now

def ReactiveAction.label : ReactiveAction → String
  | alert => "Alert"
  | suspend => "Suspend"
  | page => "Page"

/-- The Warning event, only for a reason that is not the recorded one. -/
def raisedEvents (priorReason : Option String) : Escalation → List (String × String)
  | .healthy => []
  | .triggered t =>
    if priorReason ≠ some t.reason then
      [("ReactivePolicyTriggered", s!"[{t.action.label}] reason={t.reason}: {t.message}")]
    else []

/-- Status, reason and message of the Healthy condition. -/
def Escalation.healthyContent : Escalation → String × String × String
  | healthy => ("True", "NoEscalations", "no reactive policies have fired")
  | triggered t => ("False", t.reason, t.message)

def isHealthy (c : Condition) : Bool := c.type = "Healthy"

/-- The time of a Healthy condition that says the same already, else now. -/
def healthyTransition (conditions : List Condition) (e : Escalation) (now : Time) : Time :=
  match conditions.find? isHealthy with
  | some p =>
    if (p.status, p.reason, p.message) = e.healthyContent then p.lastTransitionTime else now
  | none => now

def healthyCondition (conditions : List Condition) (e : Escalation) (now : Time) : Condition :=
  ⟨"Healthy", e.healthyContent.1, healthyTransition conditions e now, e.healthyContent.2.1,
    e.healthyContent.2.2, none⟩

def nextAutoSuspended (e : Escalation) (prior : Bool) : Bool :=
  match e with
  | .healthy => false
  | .triggered t => t.action = .suspend || prior

/-- The members of the stage's patch. -/
structure ReactiveWrite where
  conditions : List Condition
  verifiedBlockedSince : Option Time
  autoSuspended : Bool
  lastEscalatedAt : Option Time
  lastEscalationReason : Option String
  applyCursorCount : Option Nat
  applyCursorAdvancedAt : Option Time
  deriving DecidableEq, Repr

def reactiveWrite : ReactiveWrite :=
  let prior := status.getD {}
  let e := stageEscalation status i
  { conditions := prior.conditions.filter (fun c => !isHealthy c) ++
      [healthyCondition prior.conditions e i.now]
    verifiedBlockedSince := newBlockedSince status i
    autoSuspended := nextAutoSuspended e prior.autoSuspended
    lastEscalatedAt := match e with
      | .healthy => prior.lastEscalatedAt
      | .triggered _ => some i.now
    lastEscalationReason := e.reason
    applyCursorCount := (newCursor status i).1
    applyCursorAdvancedAt := (newCursor status i).2 }

/-- Two conditions that the diff takes for the same; the observed generation is not compared. -/
def sameCondition (p n : Condition) : Bool :=
  p.type = n.type && p.status = n.status && p.reason = n.reason && p.message = n.message &&
    p.lastTransitionTime = n.lastTransitionTime

def reactivePolicyStatusUnchanged (prior : Status) (w : ReactiveWrite) : Bool :=
  (prior.conditions.length = w.conditions.length &&
    (prior.conditions.zip w.conditions).all (fun c => sameCondition c.1 c.2)) &&
  prior.verifiedBlockedSince = w.verifiedBlockedSince &&
  prior.autoSuspended = w.autoSuspended &&
  prior.lastEscalatedAt = w.lastEscalatedAt &&
  prior.lastEscalationReason = w.lastEscalationReason &&
  prior.applyCursorCount = w.applyCursorCount &&
  prior.applyCursorAdvancedAt = w.applyCursorAdvancedAt

def reactivePatch (w : ReactiveWrite) : Doc :=
  statusBody [(.conditions, some ((Codec.list Condition.codec).enc w.conditions)),
    (.verifiedBlockedSince, some (optionDoc .time w.verifiedBlockedSince)),
    (.autoSuspended, some (Codec.bool.enc w.autoSuspended)),
    (.lastEscalatedAt, some (optionDoc .time w.lastEscalatedAt)),
    (.lastEscalationReason, some (optionDoc .string w.lastEscalationReason)),
    (.applyCursorCount, some (optionDoc .nat w.applyCursorCount)),
    (.applyCursorAdvancedAt, some (optionDoc .time w.applyCursorAdvancedAt))]

/-- Parked at Planning on a plan that nobody approved. -/
def isAwaitingPlanApproval (currentPhase : Phase) : Bool :=
  currentPhase = .planning &&
    match status.bind Status.pendingPlanHash with
    | none => false
    | some pendingHash =>
      !isPlanApproved (status.bind Status.approvedPlanHash) i.specApproved pendingHash

def phaseIsForceResettable : Phase → Bool
  | .compiling | .initializing | .planning | .applying => true
  | _ => false

def isPhaseTimeout (reason : String) : Bool := "PhaseTimeout:".toList.isPrefixOf reason.toList

def forceResetError (reason : String) : String :=
  s!"ReactivePolicy: {reason} — forcing phase to Failed so handle_failed can recover " ++
    "(workspace clean + reset to Pending). Triggered after phase stuck past timeout threshold."

/-- The error of the forced reset, where one is due on this run. -/
def forceReset (e : Escalation) : Option String :=
  match e with
  | .healthy => none
  | .triggered t =>
    let isNewPhaseTimeout :=
      (status.getD {}).lastEscalationReason ≠ some t.reason && isPhaseTimeout t.reason
    match status.bind Status.phase with
    | none => none
    | some currentPhase =>
      if isNewPhaseTimeout && phaseIsForceResettable currentPhase && !i.queued &&
          !isAwaitingPlanApproval status i currentPhase then some (forceResetError t.reason)
      else none

def forcePatch (error : String) : Doc :=
  statusBody [(.phase, some (Phase.codec.enc .failed)),
    (.lastError, some (Codec.string.enc error)),
    (.failureCount, some (Codec.nat.enc
      ((status.map (fun s => saturatingSucc s.failureCount)).getD 1)))]

/-- What a run of the stage sends: its events as reason and message, its patch, and the error it
forces the phase to Failed with. -/
structure ReactiveOutcome where
  events : List (String × String)
  patch : Option ReactiveWrite
  forced : Option String
  deriving DecidableEq, Repr

def applyReactivePolicy : ReactiveOutcome :=
  let e := stageEscalation status i
  let prior := status.getD {}
  let w := reactiveWrite status i
  let raised := raisedEvents prior.lastEscalationReason e
  if reactivePolicyStatusUnchanged prior w then ⟨raised, none, none⟩
  -- a patch that is not taken ends the stage, and the pipeline only logs it
  else if !i.patched then ⟨raised, some w, none⟩
  else
    let forced := forceReset status i e
    let reset := if i.reset then
        forced.toList.map (fun error => ("PhaseTimeoutForceReset", error))
      else []
    ⟨raised ++ reset, some w, forced⟩

/-- The patches that the API server takes. -/
def reactiveWrites : List Doc :=
  let outcome := applyReactivePolicy status i
  if i.patched then
    outcome.patch.toList.map reactivePatch ++
      (if i.reset then outcome.forced.toList.map (forcePatch status) else [])
  else []

end Stage

end PangeaOperator

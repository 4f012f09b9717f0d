import PangeaOperator.StatusRecord

/-!
# The pass state machine

`controller/template/pass.rs`. A pass works on one generation of the spec. A newer
generation that arrives while a pass is active waits in its queue slot, and the
watchdog turns a pass that makes no headway into a stalled one. A projection of the
stored status runs the three in order and writes back only what changed.
-/

namespace PangeaOperator

open Json

structure Queued where
  generation : Int
  since : Time
  deriving DecidableEq, Repr

inductive PassPhase where
  | settled (generation : Int)
  | pending (generation : Int) (since : Time)
  | planning (generation : Int) (startedAt heartbeat : Time) (queued : Option Queued)
  | applying (generation : Int) (startedAt heartbeat : Time) (queued : Option Queued)
  | failed (generation : Int) (reason : String)
  | stalled (generation : Int) (since : Time) (state : StallState) (reason : String)
  deriving DecidableEq, Repr

structure Deadlines where
  heartbeat : Time := seconds 300
  pendingStart : Time := seconds 1800
  orphanGrace : Time := seconds 120
  noProgress : Time := seconds 600
  backstop : Time := seconds 7200
  deriving DecidableEq, Repr

namespace PassPhase

def generation : PassPhase → Int
  | settled g => g
  | pending g _ => g
  | planning g _ _ _ => g
  | applying g _ _ _ => g
  | failed g _ => g
  | stalled g _ _ _ => g

def kind : PassPhase → PassKind
  | settled _ => .settled
  | pending _ _ => .pending
  | planning _ _ _ _ => .planning
  | applying _ _ _ _ => .applying
  | failed _ _ => .failed
  | stalled _ _ _ _ => .stalled

def queued : PassPhase → Option Queued
  | planning _ _ _ q => q
  | applying _ _ _ q => q
  | _ => none

def blockedBehind : PassPhase → Option String
  | planning g startedAt _ (some q) =>
    some s!"generation {q.generation} is queued behind the Planning pass for generation {g} started {toRfc3339 startedAt}"
  | applying g startedAt _ (some q) =>
    some s!"generation {q.generation} is queued behind the Applying pass for generation {g} started {toRfc3339 startedAt}"
  | _ => none

def lagSince : PassPhase → Option Time
  | pending _ since => some since
  | other => other.queued.map Queued.since

def observedGeneration (previous : Int) : PassPhase → Int
  | settled g => max previous g
  | failed g reason => if reason ≠ "" then max previous g else previous
  | _ => previous

def fromStatus (status : PassStatus) (fallback : Time) : PassPhase :=
  let since := status.since.getD fallback
  let queued := match status.queuedGeneration, status.queuedSince with
    | some g, some s => some ⟨g, s⟩
    | some g, none => some ⟨g, fallback⟩
    | none, _ => none
  let reason := status.reason.getD ""
  match status.kind with
  | .settled => settled status.generation
  | .pending => pending status.generation since
  | .planning => planning status.generation since (status.heartbeatAt.getD since) queued
  | .applying => applying status.generation since (status.heartbeatAt.getD since) queued
  | .failed => failed status.generation reason
  | .stalled => stalled status.generation since (status.stall.getD .unnamed) reason

/-- `to_status`, written by the process called `incarnation`. -/
def toStatus (incarnation : String) (p : PassPhase) : PassStatus :=
  let s : PassStatus := {
    kind := p.kind
    generation := p.generation
    since := none
    heartbeatAt := none
    reason := none
    queuedGeneration := none
    queuedSince := none
    stall := none
    incarnation := some incarnation }
  match p with
  | settled _ => s
  | pending _ since => { s with since := some since }
  | planning _ startedAt heartbeat queued | applying _ startedAt heartbeat queued =>
    { s with
      since := some startedAt
      heartbeatAt := some heartbeat
      queuedGeneration := queued.map Queued.generation
      queuedSince := queued.map Queued.since }
  | failed _ reason => { s with reason := some reason }
  | stalled _ since state reason =>
    { s with since := some since, stall := some state, reason := some reason }

/-- The pass a phase change opens, from the one before it. -/
def entering (phase : Phase) (generation : Int) (error : Option String)
    (previous : Option PassPhase) (now : Time) : PassPhase :=
  let carriedQueue := previous.bind queued
  match phase with
  | .ready | .drifted => settled generation
  | .failed | .compileBlocked =>
    let carriedReason := match previous with
      | some (failed _ reason) => some reason
      | _ => none
    failed generation ((error.or carriedReason).getD phase.name)
  | .planning | .compiling | .initializing =>
    let startedAt := match previous with
      | some (planning g startedAt _ _) => if g = generation then startedAt else now
      | _ => now
    planning generation startedAt now carriedQueue
  | .applying =>
    let startedAt := match previous with
      | some (applying g startedAt _ _) => if g = generation then startedAt else now
      | _ => now
    applying generation startedAt now carriedQueue
  | .pending | .verifying | .verified | .destroying =>
    let since := match previous with
      | some (pending g since) => if g = generation then since else now
      | _ => now
    pending generation since

/-- The queue slot after seeing a live generation the pass has already reached. -/
def keepQueue (generation : Int) (queued : Option Queued) : Option Queued :=
  queued.filter (fun q => generation < q.generation)

/-- The queue slot after seeing a generation beyond the pass. -/
def joinQueue (live : Int) (now : Time) (queued : Option Queued) : Option Queued :=
  some ⟨live, (queued.map Queued.since).getD now⟩

def observe (live : Int) (now : Time) (p : PassPhase) : PassPhase :=
  if live ≤ p.generation then
    match p with
    | planning g startedAt heartbeat queued =>
      planning g startedAt heartbeat (keepQueue g queued)
    | applying g startedAt heartbeat queued =>
      applying g startedAt heartbeat (keepQueue g queued)
    | other => other
  else
    match p with
    | settled _ | failed _ _ => pending live now
    | pending _ since => pending live since
    | planning g startedAt heartbeat queued =>
      planning g startedAt heartbeat (joinQueue live now queued)
    | applying g startedAt heartbeat queued =>
      applying g startedAt heartbeat (joinQueue live now queued)
    | stalled _ since state reason => stalled live since state reason

theorem observe_planning (live : Int) (now : Time) (g : Int) (startedAt heartbeat : Time)
    (queued : Option Queued) :
    (planning g startedAt heartbeat queued).observe live now =
      if live ≤ g then planning g startedAt heartbeat (keepQueue g queued)
      else planning g startedAt heartbeat (joinQueue live now queued) := rfl

theorem observe_applying (live : Int) (now : Time) (g : Int) (startedAt heartbeat : Time)
    (queued : Option Queued) :
    (applying g startedAt heartbeat queued).observe live now =
      if live ≤ g then applying g startedAt heartbeat (keepQueue g queued)
      else applying g startedAt heartbeat (joinQueue live now queued) := rfl

/-- The three deadlines of an active pass, in the order they are tried. -/
def watchActive (label : String) (generation : Int) (startedAt heartbeat : Time)
    (queued : Option Queued) (now : Time) (deadlines : Deadlines) (p : PassPhase) : PassPhase :=
  if now - heartbeat > deadlines.heartbeat then
    stalled ((queued.map Queued.generation).getD generation) now .heartbeatLost
      s!"{label} pass for generation {generation} started {toRfc3339 startedAt} has no heartbeat for {numSeconds (now - heartbeat)}s"
  else
    let behind := queued.filter (fun q => now - q.since > deadlines.pendingStart)
    match behind with
    | some q =>
      stalled q.generation now .queuedBehind
        s!"generation {q.generation} queued {numSeconds (now - q.since)}s behind {label} pass for generation {generation} started {toRfc3339 startedAt}"
    | none =>
      if now - startedAt > deadlines.backstop then
        stalled generation now .unnamed
          s!"unnamed stall: {label} pass for generation {generation} running {numSeconds (now - startedAt)}s with no named wedge state matched; name this state"
      else p

def watchdog (now : Time) (deadlines : Deadlines) (p : PassPhase) : PassPhase :=
  match p with
  | planning g startedAt heartbeat queued =>
    watchActive "Planning" g startedAt heartbeat queued now deadlines p
  | applying g startedAt heartbeat queued =>
    watchActive "Applying" g startedAt heartbeat queued now deadlines p
  | pending g since =>
    if now - since > deadlines.pendingStart then
      stalled g now .pendingNotStarted
        s!"generation {g} pending for {numSeconds (now - since)}s and no pass started"
    else p
  | _ => p

end PassPhase

/-- `ConditionSet::project` on one condition. -/
def projectCondition (pass : PassPhase) (observed live : Int) (c : Condition) : Condition :=
  let caughtUp := live ≤ observed
  let mayClaimGood := caughtUp ∧ pass.kind ≠ .stalled ∧ pass.kind ≠ .failed
  let behindReason := pass.blockedBehind.getD
    s!"observed generation {observed} is behind generation {live}"
  let c := { c with observedGeneration := some live }
  let claimsGood := c.type = "Ready" ∨ c.type = "Settled"
  let c :=
    if claimsGood ∧ c.status = "True" ∧ ¬mayClaimGood then
      { c with
        status := "False"
        reason := if caughtUp then "PassNotHealthy" else "GenerationBehind"
        message := if caughtUp then
          s!"pass for generation {pass.generation} is {pass.kind.name}" else behindReason }
    else c
  if c.type = "Reconciling" ∧ c.status ≠ "True" ∧ ¬caughtUp then
    { c with status := "True", reason := "GenerationBehind", message := behindReason }
  else c

def stalledCondition (pass : PassPhase) (live : Int) (now : Time) : Condition :=
  match pass with
  | .stalled _ _ _ reason => ⟨"Stalled", "True", now, "Stalled", reason, some live⟩
  | _ => ⟨"Stalled", "False", now, "NotStalled", "pass is making progress or idle", some live⟩

/-- `ConditionSet::project`. -/
def projectConditions (conditions : List Condition) (pass : PassPhase) (observed live : Int)
    (now : Time) : List Condition :=
  (conditions.map (projectCondition pass observed live)).filter (fun c => c.type ≠ "Stalled") ++
    [stalledCondition pass live now]

/-- A condition whose content did not change keeps its transition time. -/
def mergeConditionTransitions (prev new : List Condition) : List Condition :=
  new.map (fun n =>
    match prev.find? (fun p => p.type = n.type) with
    | some p =>
      if p.status = n.status ∧ p.reason = n.reason ∧ p.message = n.message then
        { n with lastTransitionTime := p.lastTransitionTime }
      else n
    | none => n)

namespace Status

def acknowledged (s : Status) : Int :=
  if s.acknowledgedGeneration ≠ 0 then s.acknowledgedGeneration else s.observedGeneration

def storedPass (s : Status) (now : Time) : PassPhase :=
  match s.pass with
  | some p => .fromStatus p now
  | none => .entering (s.phase.getD .pending) s.acknowledged s.lastError none now

end Status

def orphanedReason (pass : PassPhase) (owner : Option String) (incarnation : String)
    (quiet : Time) : String :=
  let owner := owner.getD "unrecorded"
  s!"{pass.kind.name} pass for generation {pass.generation} belongs to incarnation {owner} and this is {incarnation}; no heartbeat for {numSeconds quiet}s"

def inFlightText (c : InFlightCall) : String :=
  let rpc := c.rpc.getD "rpc"
  s!"; in flight: {rpc} {c.address} since {toRfc3339 c.since}"

def noProgressReason (progress : LiveProgress) (quiet : Time) : String :=
  let total := (progress.resourcesTotal.map toString).getD "?"
  let inFlight := (progress.inFlight.map inFlightText).getD ""
  s!"no progress for {numSeconds quiet}s with {progress.resourcesDone}/{total} resources done{inFlight}"

/-- `named_stall` for an active pass with that heartbeat. -/
def namedStallActive (status : Status) (pass : PassPhase) (heartbeat now : Time)
    (deadlines : Deadlines) (incarnation : String) : PassPhase :=
  let owner := status.pass.bind PassStatus.incarnation
  if owner ≠ some incarnation ∧ now - heartbeat > deadlines.orphanGrace then
    .stalled pass.generation now .orphanedPhase
      (orphanedReason pass owner incarnation (now - heartbeat))
  else
    match status.progress with
    | some progress =>
      let quiet := now - progress.lastProgressAt
      if progress.finishedAt = none ∧ quiet > deadlines.noProgress then
        .stalled pass.generation now .noProgress (noProgressReason progress quiet)
      else pass
    | none => pass

def namedStall (status : Status) (pass : PassPhase) (now : Time) (deadlines : Deadlines)
    (incarnation : String) : PassPhase :=
  match pass with
  | .planning _ _ heartbeat _ => namedStallActive status pass heartbeat now deadlines incarnation
  | .applying _ _ heartbeat _ => namedStallActive status pass heartbeat now deadlines incarnation
  | _ => pass

structure StatusProjection where
  pass : PassPhase
  observedGeneration : Int
  conditions : List Condition
  lagSince : Option Time

def projectedPass (status : Status) (live : Int) (now : Time) (deadlines : Deadlines)
    (incarnation : String) : PassPhase :=
  ((namedStall status (status.storedPass now) now deadlines incarnation).observe live now).watchdog
    now deadlines

def projectStatus (status : Status) (live : Int) (now : Time) (deadlines : Deadlines)
    (incarnation : String) : StatusProjection :=
  let pass := projectedPass status live now deadlines incarnation
  let observed := pass.observedGeneration status.observedGeneration
  { pass
    observedGeneration := observed
    conditions := mergeConditionTransitions status.conditions
      (projectConditions status.conditions pass observed live now)
    lagSince := pass.lagSince }

/-- Equal as sorted lists of everything but the transition time. -/
def conditionsDiffer (a b : List Condition) : Bool :=
  let key (c : Condition) := (c.type, c.status, c.reason, c.message, c.observedGeneration)
  !(a.map key).isPerm (b.map key)

/-- The members of a pass that a projection of the same kind may rewrite. -/
def passFields (old new : PassStatus) : List (String × Doc) :=
  (if old.generation ≠ new.generation then [("generation", Codec.int.enc new.generation)]
    else []) ++
  (if old.queuedGeneration ≠ new.queuedGeneration then
    [("queuedGeneration", (new.queuedGeneration.map Codec.int.enc).getD .null)] else []) ++
  (if old.queuedSince ≠ new.queuedSince then
    [("queuedSince", (new.queuedSince.map Codec.time.enc).getD .null)] else [])

def passPatch (stored : Option PassStatus) (new : PassStatus) : Option Doc :=
  match stored with
  | some old =>
    if old.kind = new.kind then
      (if passFields old new = [] then none else some (.obj (passFields old new)))
    else some (PassStatus.codec.enc new)
  | none => some (PassStatus.codec.enc new)

def projectionFields (status : Status) (projection : StatusProjection) (incarnation : String) :
    List (StatusField × Option Doc) := [
  (.pass, passPatch status.pass (projection.pass.toStatus incarnation)),
  (.observedGeneration,
    if projection.observedGeneration ≠ status.observedGeneration then
      some (Codec.int.enc projection.observedGeneration) else none),
  (.conditions,
    if conditionsDiffer status.conditions projection.conditions then
      some ((Codec.list Condition.codec).enc projection.conditions) else none),
  (.generationLagSince,
    if projection.lagSince ≠ status.generationLagSince then
      some ((projection.lagSince.map Codec.time.enc).getD .null) else none)]

/-- `projection_patch`: nothing at all when nothing changed. -/
def projectionPatch (status : Status) (projection : StatusProjection) (incarnation : String) :
    Option Doc :=
  let fs := projectionFields status projection incarnation
  if fs.all (fun m => m.2.isNone) then none else some (statusBody fs)

end PangeaOperator
